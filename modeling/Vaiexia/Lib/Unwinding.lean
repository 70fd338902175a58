import Mathlib.Data.List.Forall2

/-!
# Unwinding

Noninterference of a deterministic system that may compare its secrets: two runs whose operations
are alike, and whose comparisons come out the same, emit the same events.  What the secrets are is
said by the two relations, that of operations and that of states; an `Unwinding` is about one step,
and `Unwinding.trace_eq` about runs.
-/

namespace Vaiexia.Lib

/-- What an operation leaves and emits, and what its comparisons say. -/
structure Machine (Op State Event Verdict : Type) where
  step : Op → State → State × List Event
  verdict : Op → State → Verdict

namespace Machine

variable {Op State Event Verdict : Type}

/-- What a sequence of operations emits. -/
def trace (M : Machine Op State Event Verdict) : List Op → State → List Event
  | [], _ => []
  | op :: ops, s => (M.step op s).2 ++ M.trace ops (M.step op s).1

/-- What the comparisons of a sequence of operations say. -/
def verdicts (M : Machine Op State Event Verdict) : List Op → State → List Verdict
  | [], _ => []
  | op :: ops, s => M.verdict op s :: M.verdicts ops (M.step op s).1

/-- Of two states that agree, operations that are alike leave states that agree and emit the same,
if their comparisons come out the same. -/
structure Unwinding (M : Machine Op State Event Verdict) (Alike : Op → Op → Prop)
    (Agree : State → State → Prop) : Prop where
  agree {op op' : Op} {s s' : State} : Alike op op' → Agree s s' →
    M.verdict op s = M.verdict op' s' → Agree (M.step op s).1 (M.step op' s').1
  emits {op op' : Op} {s s' : State} : Alike op op' → Agree s s' →
    M.verdict op s = M.verdict op' s' → (M.step op s).2 = (M.step op' s').2

/-- **Runs whose comparisons come out the same** emit the same. -/
theorem Unwinding.trace_eq {M : Machine Op State Event Verdict} {Alike : Op → Op → Prop}
    {Agree : State → State → Prop} (hM : M.Unwinding Alike Agree) {ops ops' : List Op}
    (hops : List.Forall₂ Alike ops ops') {s s' : State} (hs : Agree s s')
    (hverdicts : M.verdicts ops s = M.verdicts ops' s') : M.trace ops s = M.trace ops' s' := by
  induction hops generalizing s s' with
  | nil => rfl
  | cons hop _ ih =>
      obtain ⟨hverdict, hlater⟩ := List.cons.inj hverdicts
      rw [trace, trace, hM.emits hop hs hverdict, ih (hM.agree hop hs hverdict) hlater]

end Machine

end Vaiexia.Lib
