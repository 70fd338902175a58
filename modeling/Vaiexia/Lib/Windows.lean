import Mathlib.Algebra.Ring.Nat
import Mathlib.Data.List.Basic

/-!
# Attempts in windows

A counter of attempts begins a window when it has none, admits so many attempts while it has it, and
gives it up when it has elapsed, or because it was cleared.  Who decides when it begins and gives up
a window does not matter: `Run.admittedIn_le` bounds what is admitted between any two times by their
distance and by how often the counter was cleared between them.
-/

namespace Vaiexia.Lib

/-- How many attempts a window admits, and how long it lasts. -/
structure Meter where
  limit : Nat
  window : Nat

namespace Meter

/-- A window: its begin, and what it has admitted. -/
structure Opened where
  start : Nat
  used : Nat

/-- What is noted of a counter. -/
inductive Mark where
  | admitted (t : Nat)
  | cleared (t : Nat)

/-- An attempt that was admitted between two times. -/
def Mark.admittedIn (a b : Nat) : Mark → Bool
  | admitted t => a ≤ t ∧ t ≤ b
  | cleared _ => false

/-- A clear between two times. -/
def Mark.clearedIn (a b : Nat) : Mark → Bool
  | admitted _ => false
  | cleared t => a ≤ t ∧ t ≤ b

/-- How many attempts were admitted between two times. -/
def admittedIn (a b : Nat) (marks : List Mark) : Nat := marks.countP (·.admittedIn a b)

/-- How often it was cleared between two times. -/
def clearedIn (a b : Nat) (marks : List Mark) : Nat := marks.countP (·.clearedIn a b)

/-- When the last window began, or could begin now. -/
def begun (t : Nat) : Option Opened → Nat
  | none => t
  | some w => w.start

/-- What the window has admitted. -/
def used : Option Opened → Nat
  | none => 0
  | some w => w.used

/-- The runs of a counter up to a time, with the window that it has then. -/
inductive Run (m : Meter) : Nat → Option Opened → List Mark → Prop
  | start : Run m 0 none []
  | later {t t' : Nat} {o : Option Opened} {marks : List Mark} (h : Run m t o marks)
      (hle : t ≤ t') : Run m t' o marks
  | begin {t : Nat} {marks : List Mark} (h : Run m t none marks) : Run m t (some ⟨t, 0⟩) marks
  | attempt {t : Nat} {o : Opened} {marks : List Mark} (h : Run m t (some o) marks)
      (hused : o.used < m.limit) :
      Run m t (some ⟨o.start, o.used + 1⟩) (marks ++ [.admitted t])
  | expire {t : Nat} {o : Opened} {marks : List Mark} (h : Run m t (some o) marks)
      (helapsed : o.start + m.window ≤ t) : Run m t none marks
  | clear {t : Nat} {o : Option Opened} {marks : List Mark} (h : Run m t o marks) :
      Run m t none (marks ++ [.cleared t])

section Bound

variable {m : Meter} {t a b : Nat} {o : Option Opened} {marks : List Mark}

theorem admittedIn_append (marks more : List Mark) :
    admittedIn a b (marks ++ more) = admittedIn a b marks + admittedIn a b more :=
  List.countP_append

theorem clearedIn_append (marks more : List Mark) :
    clearedIn a b (marks ++ more) = clearedIn a b marks + clearedIn a b more :=
  List.countP_append

@[simp] theorem admittedIn_cleared : admittedIn a b [.cleared t] = 0 := rfl

@[simp] theorem clearedIn_admitted : clearedIn a b [.admitted t] = 0 := rfl

theorem admittedIn_admitted_of_not (h : ¬ (a ≤ t ∧ t ≤ b)) : admittedIn a b [.admitted t] = 0 :=
  List.countP_eq_zero.mpr fun mark hmark ↦ by
    rw [List.mem_singleton.mp hmark, Mark.admittedIn]
    simpa using h

theorem admittedIn_admitted_le : admittedIn a b [.admitted t] ≤ 1 := List.countP_le_length

theorem clearedIn_cleared (ha : a ≤ t) (hb : t ≤ b) : clearedIn a b [.cleared t] = 1 := by
  simp [clearedIn, Mark.clearedIn, ha, hb]

/-- Nothing was admitted after now. -/
theorem Run.admittedIn_eq_zero (h : m.Run t o marks) (hlt : t < a) : admittedIn a b marks = 0 := by
  induction h with
  | start => rfl
  | later _ hle ih => exact ih (Nat.lt_of_le_of_lt hle hlt)
  | begin _ ih | expire _ _ ih => exact ih hlt
  | attempt _ _ ih =>
      rw [admittedIn_append, ih hlt, admittedIn_admitted_of_not (by omega)]
  | clear _ ih => rw [admittedIn_append, ih hlt, admittedIn_cleared]

/-- The window is in the past, and has admitted no more than it may. -/
theorem Run.opened (h : m.Run t o marks) : ∀ w ∈ o, w.start ≤ t ∧ w.used ≤ m.limit := by
  induction h with
  | start | expire | clear => rintro _ ⟨⟩
  | later _ hle ih => exact fun w hw ↦ ⟨Nat.le_trans (ih w hw).1 hle, (ih w hw).2⟩
  | begin =>
      rintro _ ⟨⟩
      exact ⟨Nat.le_refl _, Nat.zero_le _⟩
  | attempt _ hused ih =>
      rintro _ ⟨⟩
      exact ⟨(ih _ rfl).1, hused⟩

/-- What windows that were begun from `a` to `t` may have admitted, if the counter was cleared so
often meanwhile: before the first clear, and after each, they are a window apart. -/
def allowance (m : Meter) (a t cleared : Nat) : Nat :=
  m.limit * ((t + m.window - a) / m.window + cleared)

theorem allowance_mono {t' n n' : Nat} (ht : t ≤ t') (hn : n ≤ n') :
    m.allowance a t n ≤ m.allowance a t' n' :=
  Nat.mul_le_mul_left _ (Nat.add_le_add (Nat.div_le_div_right (by omega)) hn)

/-- A window that begins has elapsed a window later. -/
theorem allowance_add_limit {n start : Nat} (hwindow : 0 < m.window) (ha : a ≤ t)
    (h : start + m.window ≤ t) : m.allowance a start n + m.limit ≤ m.allowance a t n := by
  unfold allowance
  rw [← Nat.mul_succ]
  refine Nat.mul_le_mul_left _ ?_
  have hdiv : (start + m.window - a) / m.window + 1 ≤ (t + m.window - a) / m.window := by
    rw [← Nat.add_div_right _ hwindow]
    exact Nat.div_le_div_right (by omega)
  omega

/-- What was admitted since `a` is what the windows before this one may have admitted, and what this
one has. -/
theorem Run.admittedIn_le_allowance (hwindow : 0 < m.window) (h : m.Run t o marks) (hb : t ≤ b) :
    admittedIn a b marks ≤ m.allowance a (begun t o) (clearedIn a b marks) + used o := by
  induction h with
  | start => exact Nat.zero_le _
  | @later t t' o marks h hle ih =>
      have hbefore := ih (Nat.le_trans hle hb)
      cases o with
      | none => exact Nat.le_trans hbefore (allowance_mono hle (Nat.le_refl _))
      | some w => exact hbefore
  | begin _ ih => exact ih hb
  | @attempt t o marks h hused ih =>
      have hcleared : clearedIn a b (marks ++ [.admitted t]) = clearedIn a b marks := by
        rw [clearedIn_append, clearedIn_admitted, Nat.add_zero]
      calc admittedIn a b (marks ++ [.admitted t])
          = admittedIn a b marks + admittedIn a b [.admitted t] := admittedIn_append _ _
        _ ≤ m.allowance a o.start (clearedIn a b marks) + o.used + 1 :=
          Nat.add_le_add (ih hb) admittedIn_admitted_le
        _ = m.allowance a o.start (clearedIn a b (marks ++ [.admitted t])) + (o.used + 1) := by
          rw [hcleared, Nat.add_assoc]
  | @expire t o marks h helapsed ih =>
      -- before `a` nothing counts, and after it the window makes room for the next one
      rcases Nat.lt_or_ge t a with hlt | ha
      · rw [h.admittedIn_eq_zero hlt]
        exact Nat.zero_le _
      · calc admittedIn a b marks
            ≤ m.allowance a o.start (clearedIn a b marks) + o.used := ih hb
          _ ≤ m.allowance a o.start (clearedIn a b marks) + m.limit :=
            Nat.add_le_add_left (h.opened o rfl).2 _
          _ ≤ m.allowance a t (clearedIn a b marks) := allowance_add_limit hwindow ha helapsed
  | @clear t o marks h ih =>
      rw [admittedIn_append, clearedIn_append, admittedIn_cleared, Nat.add_zero]
      rcases Nat.lt_or_ge t a with hlt | ha
      · rw [h.admittedIn_eq_zero hlt]
        exact Nat.zero_le _
      · rw [clearedIn_cleared ha hb]
        have hused : used o ≤ m.limit := by
          cases o with
          | none => exact Nat.zero_le _
          | some w => exact (h.opened w rfl).2
        have hbegun : begun t o ≤ t := by
          cases o with
          | none => exact Nat.le_refl _
          | some w => exact (h.opened w rfl).1
        calc admittedIn a b marks
            ≤ m.allowance a (begun t o) (clearedIn a b marks) + used o := ih hb
          _ ≤ m.allowance a t (clearedIn a b marks) + m.limit :=
            Nat.add_le_add (allowance_mono hbegun (Nat.le_refl _)) hused
          _ = m.allowance a t (clearedIn a b marks + 1) := by
            rw [allowance, allowance, ← Nat.mul_succ, ← Nat.add_assoc]

/-- **What is admitted between two times**: besides the window that is open at `a`, there is one for
each window's length, and one for each clear. -/
theorem Run.admittedIn_le (hwindow : 0 < m.window) (h : m.Run t o marks) (a b : Nat) :
    admittedIn a b marks ≤ m.limit * ((b - a) / m.window + 2 + clearedIn a b marks) := by
  induction h with
  | start => exact Nat.zero_le _
  | later _ _ ih | begin _ ih | expire _ _ ih => exact ih
  | @clear t o marks h ih =>
      rw [admittedIn_append, clearedIn_append, admittedIn_cleared, Nat.add_zero]
      exact Nat.le_trans ih (Nat.mul_le_mul_left _ (by omega))
  | @attempt t o marks h hused ih =>
      rcases Nat.lt_or_ge b t with hlt | hb
      · rw [admittedIn_append, clearedIn_append, admittedIn_admitted_of_not (by omega),
          clearedIn_admitted]
        exact ih
      · have hrun := h.attempt hused
        have hstart := (h.opened o rfl).1
        calc admittedIn a b (marks ++ [.admitted t])
            ≤ m.allowance a o.start (clearedIn a b (marks ++ [.admitted t])) + (o.used + 1) :=
              hrun.admittedIn_le_allowance hwindow hb
          _ ≤ m.allowance a b (clearedIn a b (marks ++ [.admitted t])) + m.limit :=
            Nat.add_le_add (allowance_mono (Nat.le_trans hstart hb) (Nat.le_refl _)) hused
          _ ≤ m.limit * ((b - a) / m.window + 2 + clearedIn a b (marks ++ [.admitted t])) := by
            rw [allowance, ← Nat.mul_succ]
            refine Nat.mul_le_mul_left _ ?_
            have hdiv : (b + m.window - a) / m.window ≤ (b - a) / m.window + 1 := by
              rw [← Nat.add_div_right _ hwindow]
              exact Nat.div_le_div_right (by omega)
            omega

end Bound

end Meter

end Vaiexia.Lib
