import Mathlib.Logic.Function.Basic
import Mathlib.Data.List.Nodup
import Mathlib.Logic.Relation

/-!
# Durable cells

A value that any number of calls change under one lock, each in the same way: take the lock, apply
a change to the published value, write the result to disk, publish it, release the lock.  Readers
take no lock.  Writing may fail, a change may refuse, and the process may stop between any two
steps and start again from what is on disk.

A call is in a `Phase`.  `Step` is one step of one call, `Restart` a stop and a new start.  The
`log` is not part of the program: it has an entry for every change that was published, in that
order, and for every call that found it had nothing to change.  What holds of any interleaving is
`Inv`:

* replaying the log gives the published value, and a call that succeeded is in it once, with its
  result;
* the disk has the published value, except between writing and publishing, where it has the next
  one (`Inv.durable` says what a new start finds);
* a call that failed is not in the log, and changed neither value nor disk
  (`Step.committed_of_ne`).
-/

namespace Vaiexia.Lib.DurableCell

variable {ι σ δ γ ρ ε : Type}

/-- What changes do to a value of type `σ`, with results in `ρ` and refusals in `ε`, and how a
value is written to disk. -/
structure Spec (σ δ γ ρ ε : Type) where
  apply : γ → σ → Except ε (σ × ρ)
  write : σ → δ
  read : δ → Option σ
  read_write : ∀ s, read (write s) = some s

/-- How far a call has come. -/
inductive Phase (σ γ ρ ε : Type) where
  | idle
  | waiting (c : γ)
  | locked (c : γ)
  | computed (c : γ) (next : σ) (r : ρ)
  | persisted (c : γ) (next : σ) (r : ρ)
  | published (c : γ) (r : ρ)
  | released (c : γ) (r : ρ)
  | ok (c : γ) (r : ρ)
  | failing (e : ε)
  | failed (e : ε)
  | err (e : ε)
  /-- The process stopped before the call returned. -/
  | lost

namespace Phase

/-- The call has changed the disk, or has found that it need not. -/
def Committed : Phase σ γ ρ ε → Prop
  | persisted .. | published .. | released .. | ok .. | lost => True
  | _ => False

/-- The call will publish nothing any more. -/
def Spent : Phase σ γ ρ ε → Prop
  | idle | waiting _ | locked _ | computed .. | persisted .. => False
  | _ => True

/-- The change of the call is published, and the call succeeds unless the process stops. -/
def Took : Phase σ γ ρ ε → Prop
  | published .. | released .. | ok .. => True
  | _ => False

/-- The call was made and has not returned. -/
def InProgress : Phase σ γ ρ ε → Prop
  | idle | ok .. | err _ | lost => False
  | _ => True

/-- What is left of a call when the process stops. -/
def crash : Phase σ γ ρ ε → Phase σ γ ρ ε
  | idle => idle
  | ok c r => ok c r
  | err e => err e
  | _ => lost

/-- The change that the call has submitted, until it fails. -/
def change? : Phase σ γ ρ ε → Option γ
  | waiting c | locked c | computed c _ _ | persisted c _ _ | published c _ | released c _
  | ok c _ => some c
  | _ => none

end Phase

/-- A change that took effect. -/
structure Entry (ι γ ρ : Type) where
  call : ι
  change : γ
  result : ρ

/-- The published value, the disk, the holder of the lock, the calls and the log. -/
structure State (ι σ δ γ ρ ε : Type) where
  snap : σ
  disk : δ
  lock : Option ι
  phase : ι → Phase σ γ ρ ε
  log : List (Entry ι γ ρ)

/-- The entries, one after another, lead from one value to another with the results they have. -/
inductive Spec.Replays (S : Spec σ δ γ ρ ε) : σ → List (Entry ι γ ρ) → σ → Prop
  | nil (s : σ) : Replays S s [] s
  | snoc {s t u : σ} {log : List (Entry ι γ ρ)} {e : Entry ι γ ρ} (h : Replays S s log t)
      (happly : S.apply e.change t = .ok (u, e.result)) : Replays S s (log ++ [e]) u

theorem Spec.Replays.eq_of_nil {S : Spec σ δ γ ρ ε} {s s' : σ} {log : List (Entry ι γ ρ)}
    (h : S.Replays s log s') (hlog : log = []) : s' = s := by
  cases h with
  | nil => rfl
  | snoc => simp at hlog

/-- A property of values that every entry keeps or brings about holds after a replay only if it
held before or an entry brought it about. -/
theorem Spec.Replays.origin {S : Spec σ δ γ ρ ε} {s s' : σ} {log : List (Entry ι γ ρ)}
    (h : S.Replays s log s') {P : σ → Prop} {Q : γ → Prop}
    (hstep : ∀ c t u r, S.apply c t = .ok (u, r) → P u → P t ∨ Q c) (hP : P s') :
    P s ∨ ∃ e ∈ log, Q e.change := by
  induction h with
  | nil => exact .inl hP
  | snoc _ happly ih =>
      rename_i e _
      rcases hstep _ _ _ _ happly hP with ht | hc
      · rcases ih ht with hs | ⟨e', he', hQ⟩
        · exact .inl hs
        · exact .inr ⟨e', List.mem_append_left _ he', hQ⟩
      · exact .inr ⟨e, List.mem_append_right _ List.mem_cons_self, hc⟩

namespace State

variable [DecidableEq ι]

/-- The call enters a phase. -/
def set (i : ι) (p : Phase σ γ ρ ε) (st : State ι σ δ γ ρ ε) : State ι σ δ γ ρ ε :=
  { st with phase := Function.update st.phase i p }

/-- The call has found that its change would change nothing. -/
def skip (i : ι) (c : γ) (r : ρ) (st : State ι σ δ γ ρ ε) : State ι σ δ γ ρ ε :=
  { st.set i (.released c r) with log := st.log ++ [⟨i, c, r⟩] }

@[simp] theorem set_snap (i : ι) (p : Phase σ γ ρ ε) (st : State ι σ δ γ ρ ε) :
    (st.set i p).snap = st.snap := rfl

@[simp] theorem set_disk (i : ι) (p : Phase σ γ ρ ε) (st : State ι σ δ γ ρ ε) :
    (st.set i p).disk = st.disk := rfl

@[simp] theorem set_lock (i : ι) (p : Phase σ γ ρ ε) (st : State ι σ δ γ ρ ε) :
    (st.set i p).lock = st.lock := rfl

@[simp] theorem set_log (i : ι) (p : Phase σ γ ρ ε) (st : State ι σ δ γ ρ ε) :
    (st.set i p).log = st.log := rfl

@[simp] theorem set_phase_self (i : ι) (p : Phase σ γ ρ ε) (st : State ι σ δ γ ρ ε) :
    (st.set i p).phase i = p := by simp [set]

@[simp] theorem skip_snap (i : ι) (c : γ) (r : ρ) (st : State ι σ δ γ ρ ε) :
    (st.skip i c r).snap = st.snap := rfl

@[simp] theorem skip_disk (i : ι) (c : γ) (r : ρ) (st : State ι σ δ γ ρ ε) :
    (st.skip i c r).disk = st.disk := rfl

@[simp] theorem skip_phase_self (i : ι) (c : γ) (r : ρ) (st : State ι σ δ γ ρ ε) :
    (st.skip i c r).phase i = .released c r := set_phase_self i _ st

theorem set_phase_of_ne {i j : ι} (h : j ≠ i) (p : Phase σ γ ρ ε) (st : State ι σ δ γ ρ ε) :
    (st.set i p).phase j = st.phase j := by simp [set, h]

end State

/-- Nothing of the call is in the log. -/
def State.Unlogged (st : State ι σ δ γ ρ ε) (i : ι) : Prop := ∀ e ∈ st.log, e.call ≠ i

/-- The entry of a change that is on disk and not published yet. -/
def State.ahead (st : State ι σ δ γ ρ ε) : List (Entry ι γ ρ) :=
  match st.lock with
  | none => []
  | some i =>
      match st.phase i with
      | .persisted c _ r => [⟨i, c, r⟩]
      | _ => []

/-! ## Steps -/

section Steps

variable [DecidableEq ι] (S : Spec σ δ γ ρ ε) (Submits : ι → γ → Prop)

/-- One step of a call that has a change to make, from the taking of the lock to its release. -/
inductive Mutate (i : ι) : State ι σ δ γ ρ ε → State ι σ δ γ ρ ε → Prop
  | acquire {st : State ι σ δ γ ρ ε} {c : γ} (hi : st.phase i = .waiting c)
      (hfree : st.lock = none) : Mutate i st { st.set i (.locked c) with lock := some i }
  | compute {st : State ι σ δ γ ρ ε} {c : γ} {next : σ} {r : ρ} (hi : st.phase i = .locked c)
      (happly : S.apply c st.snap = .ok (next, r)) : Mutate i st (st.set i (.computed c next r))
  | refuse {st : State ι σ δ γ ρ ε} {c : γ} {e : ε} (hi : st.phase i = .locked c)
      (happly : S.apply c st.snap = .error e) : Mutate i st (st.set i (.failing e))
  | persist {st : State ι σ δ γ ρ ε} {c : γ} {next : σ} {r : ρ}
      (hi : st.phase i = .computed c next r) :
      Mutate i st { st.set i (.persisted c next r) with disk := S.write next }
  | persistFails {st : State ι σ δ γ ρ ε} {c : γ} {next : σ} {r : ρ} {e : ε}
      (hi : st.phase i = .computed c next r) : Mutate i st (st.set i (.failing e))
  | publish {st : State ι σ δ γ ρ ε} {c : γ} {next : σ} {r : ρ}
      (hi : st.phase i = .persisted c next r) :
      Mutate i st { st.set i (.published c r) with snap := next, log := st.log ++ [⟨i, c, r⟩] }
  | release {st : State ι σ δ γ ρ ε} {c : γ} {r : ρ} (hi : st.phase i = .published c r) :
      Mutate i st { st.set i (.released c r) with lock := none }
  | releaseFailed {st : State ι σ δ γ ρ ε} {e : ε} (hi : st.phase i = .failing e) :
      Mutate i st { st.set i (.failed e) with lock := none }

/-- One step of a call: it is made, with a change to make or without one because the change would
change nothing, it mutates, or it returns. -/
inductive Step (i : ι) : State ι σ δ γ ρ ε → State ι σ δ γ ρ ε → Prop
  | submit {st : State ι σ δ γ ρ ε} {c : γ} (hi : st.phase i = .idle) (hc : Submits i c) :
      Step i st (st.set i (.waiting c))
  | skip {st : State ι σ δ γ ρ ε} {c : γ} {r : ρ} (hi : st.phase i = .idle) (hc : Submits i c)
      (happly : S.apply c st.snap = .ok (st.snap, r)) :
      Step i st (st.skip i c r)
  | mutate {st st' : State ι σ δ γ ρ ε} (h : Mutate S i st st') : Step i st st'
  | return {st : State ι σ δ γ ρ ε} {c : γ} {r : ρ} (hi : st.phase i = .released c r) :
      Step i st (st.set i (.ok c r))
  | returnFailed {st : State ι σ δ γ ρ ε} {e : ε} (hi : st.phase i = .failed e) :
      Step i st (st.set i (.err e))

/-- The process stops and starts again from the disk. -/
inductive Restart : State ι σ δ γ ρ ε → State ι σ δ γ ρ ε → Prop
  | mk {st : State ι σ δ γ ρ ε} {s : σ} (hread : S.read st.disk = some s) :
      Restart st { snap := s, disk := st.disk, lock := none
                   phase := fun i ↦ (st.phase i).crash, log := st.log ++ st.ahead }

end Steps

/-! ## What calls cannot undo -/

section Mono

variable [DecidableEq ι] {S : Spec σ δ γ ρ ε} {Submits : ι → γ → Prop} {i j : ι}
  {st st' : State ι σ δ γ ρ ε}

theorem Mutate.phase_of_ne (h : Mutate S i st st') (hj : j ≠ i) : st'.phase j = st.phase j := by
  cases h <;> exact State.set_phase_of_ne hj _ _

/-- A step of one call leaves the others where they are. -/
theorem Step.phase_of_ne (h : Step S Submits i st st') (hj : j ≠ i) :
    st'.phase j = st.phase j := by
  cases h with
  | mutate h => exact h.phase_of_ne hj
  | submit | skip | «return» | returnFailed => exact State.set_phase_of_ne hj _ _

/-- Only a restart loses calls. -/
theorem Step.not_lost (h : Step S Submits i st st') (hj : st.phase j ≠ .lost) :
    st'.phase j ≠ .lost := by
  rcases eq_or_ne j i with rfl | hne
  · cases h with
    | mutate h => cases h <;> simp
    | submit | skip | «return» | returnFailed => simp
  · rw [h.phase_of_ne hne]
    exact hj

/-- A call that took effect never fails. -/
theorem Step.committed (h : Step S Submits i st st') (hj : (st.phase j).Committed) :
    (st'.phase j).Committed := by
  rcases eq_or_ne j i with rfl | hne
  · cases h with
    | mutate h => cases h <;> simp_all [Phase.Committed]
    | submit hi | skip hi | «return» hi | returnFailed hi => simp_all [Phase.Committed]
  · rw [h.phase_of_ne hne]
    exact hj

/-- A call that will publish nothing stays one. -/
theorem Step.spent (h : Step S Submits i st st') (hj : (st.phase j).Spent) :
    (st'.phase j).Spent := by
  rcases eq_or_ne j i with rfl | hne
  · cases h with
    | mutate h => cases h <;> simp_all [Phase.Spent]
    | submit hi | skip hi | «return» hi | returnFailed hi => simp_all [Phase.Spent]
  · rw [h.phase_of_ne hne]
    exact hj

/-- A call that was made stays one. -/
theorem Step.not_idle (h : Step S Submits i st st') (hj : st.phase j ≠ .idle) :
    st'.phase j ≠ .idle := by
  rcases eq_or_ne j i with rfl | hne
  · cases h with
    | mutate h => cases h <;> simp
    | submit | skip | «return» | returnFailed => simp
  · rw [h.phase_of_ne hne]
    exact hj

/-- And its change is the one that it submitted. -/
theorem Step.change_eq (h : Step S Submits i st st') (hj : st.phase j ≠ .idle) {c : γ}
    (hc : (st'.phase j).change? = some c) : (st.phase j).change? = some c := by
  rcases eq_or_ne j i with rfl | hne
  · cases h with
    | mutate h => cases h <;> simp_all [Phase.change?]
    | submit hi | skip hi | «return» hi | returnFailed hi => simp_all [Phase.change?]
  · rwa [h.phase_of_ne hne] at hc

/-- **Only a call that takes effect changes value or disk.** -/
theorem Step.committed_of_ne (h : Step S Submits i st st')
    (hne : st'.snap ≠ st.snap ∨ st'.disk ≠ st.disk) : (st'.phase i).Committed := by
  cases h with
  | mutate h => cases h <;> simp_all [Phase.Committed]
  | submit | skip | «return» | returnFailed => simp at hne

end Mono

section Restart

variable {S : Spec σ δ γ ρ ε} {j : ι} {st st' : State ι σ δ γ ρ ε}

theorem Restart.committed (h : Restart S st st') (hj : (st.phase j).Committed) :
    (st'.phase j).Committed := by
  cases h with
  | mk hread =>
      cases hphase : st.phase j <;> simp_all [Phase.Committed, Phase.crash]

theorem Restart.spent (h : Restart S st st') (hj : (st.phase j).Spent) :
    (st'.phase j).Spent := by
  cases h with
  | mk hread =>
      cases hphase : st.phase j <;> simp_all [Phase.Spent, Phase.crash]

end Restart

/-! ## The invariant -/

section Invariant

variable (S : Spec σ δ γ ρ ε) (Submits : ι → γ → Prop)

/-- What holds of a call in a phase: whether it has the lock, whether it is in the log, what it
has computed, and, while it has the lock, what is on disk. -/
def CallInv (st : State ι σ δ γ ρ ε) (i : ι) : Phase σ γ ρ ε → Prop
  | .idle | .failed _ | .err _ => st.lock ≠ some i ∧ st.Unlogged i
  | .waiting c => st.lock ≠ some i ∧ st.Unlogged i ∧ Submits i c
  | .locked c =>
      st.lock = some i ∧ st.Unlogged i ∧ Submits i c ∧ S.read st.disk = some st.snap
  | .computed c next r =>
      st.lock = some i ∧ st.Unlogged i ∧ Submits i c ∧ S.read st.disk = some st.snap ∧
        S.apply c st.snap = .ok (next, r)
  | .persisted c next r =>
      st.lock = some i ∧ st.Unlogged i ∧ Submits i c ∧ S.read st.disk = some next ∧
        S.apply c st.snap = .ok (next, r)
  | .published c r =>
      st.lock = some i ∧ ⟨i, c, r⟩ ∈ st.log ∧ S.read st.disk = some st.snap
  | .released c r | .ok c r => st.lock ≠ some i ∧ ⟨i, c, r⟩ ∈ st.log
  | .failing _ => st.lock = some i ∧ st.Unlogged i ∧ S.read st.disk = some st.snap
  | .lost => st.lock ≠ some i

/-- The invariant of a cell that started with the value `base`. -/
structure Inv (base : σ) (st : State ι σ δ γ ρ ε) : Prop where
  replays : S.Replays base st.log st.snap
  once : (st.log.map Entry.call).Nodup
  submitted : ∀ e ∈ st.log, Submits e.call e.change
  free : st.lock = none → S.read st.disk = some st.snap
  calls : ∀ i, CallInv S Submits st i (st.phase i)

end Invariant

section Invariant

variable {S : Spec σ δ γ ρ ε} {Submits : ι → γ → Prop} {base : σ} {i : ι}
  {st st' : State ι σ δ γ ρ ε}

theorem State.Unlogged.append {es : List (Entry ι γ ρ)} (h : st.Unlogged i)
    (hlog : st'.log = st.log ++ es) (hes : ∀ e ∈ es, e.call ≠ i) : st'.Unlogged i := by
  intro e he
  rw [hlog] at he
  exact (List.mem_append.mp he).elim (h e) (hes e)

/-- What holds of a call survives the steps of others: those that leave the lock, the value and
the disk alone, and those of a call that has the lock or takes it. -/
theorem CallInv.frame {p : Phase σ γ ρ ε} (h : CallInv S Submits st i p)
    (hlock : st'.lock = some i ↔ st.lock = some i)
    (hkeep : st.lock = some i → st'.snap = st.snap ∧ st'.disk = st.disk)
    {es : List (Entry ι γ ρ)} (hlog : st'.log = st.log ++ es) (hes : ∀ e ∈ es, e.call ≠ i) :
    CallInv S Submits st' i p := by
  have hmem : ∀ e, e ∈ st.log → e ∈ st'.log := fun e he ↦ hlog ▸ List.mem_append_left es he
  cases p with
  | idle | failed | err => exact ⟨mt hlock.mp h.1, h.2.append hlog hes⟩
  | waiting => exact ⟨mt hlock.mp h.1, h.2.1.append hlog hes, h.2.2⟩
  | locked | computed | persisted =>
      obtain ⟨hl, hu, hrest⟩ := h
      obtain ⟨hsnap, hdisk⟩ := hkeep hl
      rw [← hsnap, ← hdisk] at hrest
      exact ⟨hlock.mpr hl, hu.append hlog hes, hrest⟩
  | published =>
      obtain ⟨hl, he, hrest⟩ := h
      obtain ⟨hsnap, hdisk⟩ := hkeep hl
      rw [← hsnap, ← hdisk] at hrest
      exact ⟨hlock.mpr hl, hmem _ he, hrest⟩
  | released | ok => exact ⟨mt hlock.mp h.1, hmem _ h.2⟩
  | failing =>
      obtain ⟨hl, hu, hrest⟩ := h
      obtain ⟨hsnap, hdisk⟩ := hkeep hl
      rw [← hsnap, ← hdisk] at hrest
      exact ⟨hlock.mpr hl, hu.append hlog hes, hrest⟩
  | lost => exact mt hlock.mp h

/-- A change that is applied to the published value may be logged. -/
theorem Inv.log_snoc (h : Inv S Submits base st) (e : Entry ι γ ρ) {next : σ}
    (hu : st.Unlogged e.call) (hc : Submits e.call e.change)
    (happly : S.apply e.change st.snap = .ok (next, e.result)) :
    S.Replays base (st.log ++ [e]) next ∧ ((st.log ++ [e]).map Entry.call).Nodup ∧
      ∀ e' ∈ st.log ++ [e], Submits e'.call e'.change := by
  refine ⟨.snoc h.replays happly, ?_, ?_⟩
  · rw [List.map_append, List.map_singleton, List.nodup_append]
    refine ⟨h.once, List.nodup_singleton _, ?_⟩
    intro j hj k hk
    obtain ⟨e', he', rfl⟩ := List.mem_map.mp hj
    rw [List.mem_singleton.mp hk]
    exact hu e' he'
  · intro e' he'
    rcases List.mem_append.mp he' with he' | he'
    · exact h.submitted e' he'
    · rw [List.mem_singleton.mp he']
      exact hc

/-- What a step of one call has to show for all of them. -/
theorem Inv.calls_of_step (h : Inv S Submits base st)
    (hphase : ∀ j, j ≠ i → st'.phase j = st.phase j)
    (hlock : ∀ j, j ≠ i → (st'.lock = some j ↔ st.lock = some j))
    (hkeep : st.lock = some i ∨ st'.snap = st.snap ∧ st'.disk = st.disk)
    {es : List (Entry ι γ ρ)} (hlog : st'.log = st.log ++ es) (hes : ∀ e ∈ es, e.call = i)
    (hself : CallInv S Submits st' i (st'.phase i)) (j : ι) :
    CallInv S Submits st' j (st'.phase j) := by
  rcases eq_or_ne j i with rfl | hj
  · exact hself
  · rw [hphase j hj]
    refine (h.calls j).frame (hlock j hj) ?_ hlog fun e he ↦ by rw [hes e he]; exact hj.symm
    intro hl
    rcases hkeep with hi | hkeep
    · exact absurd (Option.some.inj (hl.symm.trans hi)) hj
    · exact hkeep

/-- **A step inside `Mutate` keeps the invariant.** -/
theorem Mutate.inv [DecidableEq ι] (hstep : Mutate S i st st') (h : Inv S Submits base st) :
    Inv S Submits base st' := by
  have hphase : ∀ j, j ≠ i → st'.phase j = st.phase j := fun j hj ↦ hstep.phase_of_ne hj
  have hi := h.calls i
  have hsame : st.log = st.log ++ [] := (List.append_nil _).symm
  have hnil : ∀ e ∈ ([] : List (Entry ι γ ρ)), e.call = i := by simp
  cases hstep with
  | acquire hc hfree =>
      rw [hc] at hi
      obtain ⟨-, hu, hsub⟩ := hi
      have hdisk := h.free hfree
      refine ⟨h.replays, h.once, h.submitted, by simp, ?_⟩
      refine h.calls_of_step hphase ?_ (.inr ⟨rfl, rfl⟩) hsame hnil ?_
      · intro j hj
        simp [hfree, hj.symm]
      · rw [State.set_phase_self]
        exact ⟨rfl, hu, hsub, hdisk⟩
  | compute hc happly =>
      rw [hc] at hi
      obtain ⟨hl, hu, hsub, hdisk⟩ := hi
      refine ⟨h.replays, h.once, h.submitted, h.free, ?_⟩
      refine h.calls_of_step hphase (fun _ _ ↦ .rfl) (.inl hl) hsame hnil ?_
      rw [State.set_phase_self]
      exact ⟨hl, hu, hsub, hdisk, happly⟩
  | refuse hc happly =>
      rw [hc] at hi
      obtain ⟨hl, hu, -, hdisk⟩ := hi
      refine ⟨h.replays, h.once, h.submitted, h.free, ?_⟩
      refine h.calls_of_step hphase (fun _ _ ↦ .rfl) (.inl hl) hsame hnil ?_
      rw [State.set_phase_self]
      exact ⟨hl, hu, hdisk⟩
  | persist hc =>
      rw [hc] at hi
      obtain ⟨hl, hu, hsub, -, happly⟩ := hi
      refine ⟨h.replays, h.once, h.submitted, fun hfree ↦ ?_, ?_⟩
      · exact absurd (hl.symm.trans hfree) (by simp)
      · refine h.calls_of_step hphase (fun _ _ ↦ .rfl) (.inl hl) hsame hnil ?_
        rw [State.set_phase_self]
        exact ⟨hl, hu, hsub, S.read_write _, happly⟩
  | persistFails hc =>
      rw [hc] at hi
      obtain ⟨hl, hu, -, hdisk, -⟩ := hi
      refine ⟨h.replays, h.once, h.submitted, h.free, ?_⟩
      refine h.calls_of_step hphase (fun _ _ ↦ .rfl) (.inl hl) hsame hnil ?_
      rw [State.set_phase_self]
      exact ⟨hl, hu, hdisk⟩
  | publish hc =>
      rw [hc] at hi
      obtain ⟨hl, hu, hsub, hdisk, happly⟩ := hi
      obtain ⟨hreplays, honce, hsubmitted⟩ := h.log_snoc ⟨i, _, _⟩ hu hsub happly
      refine ⟨hreplays, honce, hsubmitted, fun _ ↦ hdisk, ?_⟩
      refine h.calls_of_step hphase (fun _ _ ↦ .rfl) (.inl hl) rfl (by simp) ?_
      rw [State.set_phase_self]
      exact ⟨hl, List.mem_append_right _ List.mem_cons_self, hdisk⟩
  | release hc =>
      rw [hc] at hi
      obtain ⟨hl, he, hdisk⟩ := hi
      refine ⟨h.replays, h.once, h.submitted, fun _ ↦ hdisk, ?_⟩
      refine h.calls_of_step hphase ?_ (.inl hl) hsame hnil ?_
      · intro j hj
        simp [hl, hj.symm]
      · rw [State.set_phase_self]
        exact ⟨by simp, he⟩
  | releaseFailed hc =>
      rw [hc] at hi
      obtain ⟨hl, hu, hdisk⟩ := hi
      refine ⟨h.replays, h.once, h.submitted, fun _ ↦ hdisk, ?_⟩
      refine h.calls_of_step hphase ?_ (.inl hl) hsame hnil ?_
      · intro j hj
        simp [hl, hj.symm]
      · rw [State.set_phase_self]
        exact ⟨by simp, hu⟩

/-- **A step keeps the invariant.** -/
theorem Step.inv [DecidableEq ι] (hstep : Step S Submits i st st') (h : Inv S Submits base st) :
    Inv S Submits base st' := by
  have hphase : ∀ j, j ≠ i → st'.phase j = st.phase j := fun j hj ↦ hstep.phase_of_ne hj
  have hi := h.calls i
  have hsame : st.log = st.log ++ [] := (List.append_nil _).symm
  have hnil : ∀ e ∈ ([] : List (Entry ι γ ρ)), e.call = i := by simp
  cases hstep with
  | submit hc hsub =>
      rw [hc] at hi
      refine ⟨h.replays, h.once, h.submitted, h.free, ?_⟩
      refine h.calls_of_step hphase (fun _ _ ↦ .rfl) (.inr ⟨rfl, rfl⟩) hsame hnil ?_
      rw [State.set_phase_self]
      exact ⟨hi.1, hi.2, hsub⟩
  | skip hc hsub happly =>
      rw [hc] at hi
      obtain ⟨hreplays, honce, hsubmitted⟩ := h.log_snoc ⟨i, _, _⟩ hi.2 hsub happly
      refine ⟨hreplays, honce, hsubmitted, h.free, ?_⟩
      refine h.calls_of_step hphase (fun _ _ ↦ .rfl) (.inr ⟨rfl, rfl⟩) rfl (by simp) ?_
      rw [State.skip_phase_self]
      exact ⟨hi.1, List.mem_append_right _ List.mem_cons_self⟩
  | mutate hmutate => exact hmutate.inv h
  | «return» hc =>
      rw [hc] at hi
      refine ⟨h.replays, h.once, h.submitted, h.free, ?_⟩
      refine h.calls_of_step hphase (fun _ _ ↦ .rfl) (.inr ⟨rfl, rfl⟩) hsame hnil ?_
      rw [State.set_phase_self]
      exact hi
  | returnFailed hc =>
      rw [hc] at hi
      refine ⟨h.replays, h.once, h.submitted, h.free, ?_⟩
      refine h.calls_of_step hphase (fun _ _ ↦ .rfl) (.inr ⟨rfl, rfl⟩) hsame hnil ?_
      rw [State.set_phase_self]
      exact hi

/-- A cell that was opened and not called yet. -/
def State.start (s : σ) (disk : δ) : State ι σ δ γ ρ ε where
  snap := s
  disk := disk
  lock := none
  phase := fun _ ↦ .idle
  log := []

theorem Inv.start {s : σ} {disk : δ} (hread : S.read disk = some s) :
    Inv S Submits s (State.start s disk : State ι σ δ γ ρ ε) where
  replays := .nil s
  once := List.nodup_nil
  submitted := by simp [State.start]
  free := fun _ ↦ hread
  calls := fun _ ↦ ⟨by simp [State.start], by simp [State.start, State.Unlogged]⟩

/-- The disk has the published value, or what the holder of the lock has persisted. -/
theorem Inv.disk_cases (h : Inv S Submits base st) :
    (st.ahead = [] ∧ S.read st.disk = some st.snap) ∨
      ∃ i c next r, st.ahead = [⟨i, c, r⟩] ∧ st.lock = some i ∧
        st.phase i = .persisted c next r := by
  unfold State.ahead
  split
  · rename_i hfree
    exact .inl ⟨rfl, h.free hfree⟩
  · rename_i i hlock
    have hi := h.calls i
    split
    · rename_i c next r hphase
      exact .inr ⟨i, c, next, r, rfl, hlock, hphase⟩
    · rename_i hne
      refine .inl ⟨rfl, ?_⟩
      cases hphase : st.phase i with
      | idle | waiting | released | ok | failed | err =>
          rw [hphase] at hi
          exact absurd hlock hi.1
      | lost =>
          rw [hphase] at hi
          exact absurd hlock hi
      | locked =>
          rw [hphase] at hi
          exact hi.2.2.2
      | computed =>
          rw [hphase] at hi
          exact hi.2.2.2.1
      | persisted c next r => exact absurd hphase (hne c next r)
      | published | failing =>
          rw [hphase] at hi
          exact hi.2.2

/-- **What a new start finds** is the published value, with the change of the holder of the lock
if that is on disk already. -/
theorem Inv.durable (h : Inv S Submits base st) :
    ∃ s, S.read st.disk = some s ∧ S.Replays base (st.log ++ st.ahead) s ∧
      ((st.log ++ st.ahead).map Entry.call).Nodup ∧
      ∀ e ∈ st.log ++ st.ahead, Submits e.call e.change := by
  rcases h.disk_cases with ⟨hahead, hdisk⟩ | ⟨i, c, next, r, hahead, -, hphase⟩
  · rw [hahead, List.append_nil]
    exact ⟨st.snap, hdisk, h.replays, h.once, h.submitted⟩
  · have hi := h.calls i
    rw [hphase] at hi
    obtain ⟨-, hu, hsub, hdisk, happly⟩ := hi
    rw [hahead]
    exact ⟨next, hdisk, h.log_snoc ⟨i, c, r⟩ hu hsub happly⟩

/-- Stopping loses what the call has not done yet. -/
theorem CallInv.crash {p : Phase σ γ ρ ε} (h : CallInv S Submits st i p)
    (hp : st.phase i = p) (hfree : st'.lock = none) (hlog : st'.log = st.log ++ st.ahead)
    (hahead : ∀ e ∈ st.ahead, ∃ next, st.phase e.call = .persisted e.change next e.result) :
    CallInv S Submits st' i p.crash := by
  have hlock : st'.lock ≠ some i := by simp [hfree]
  have hother : (∀ c next r, p ≠ .persisted c next r) → ∀ e ∈ st.ahead, e.call ≠ i := by
    rintro hne e he rfl
    obtain ⟨next, hphase⟩ := hahead e he
    exact hne _ _ _ (hp.symm.trans hphase)
  cases p with
  | idle | err => exact ⟨hlock, h.2.append hlog (hother (by simp))⟩
  | ok => exact ⟨hlock, hlog ▸ List.mem_append_left _ h.2⟩
  | waiting | locked | computed | persisted | published | released | failing | failed | lost =>
      exact hlock

/-- **A restart keeps the invariant.** -/
theorem Restart.inv (hrestart : Restart S st st') (h : Inv S Submits base st) :
    Inv S Submits base st' := by
  cases hrestart with
  | mk hread =>
      obtain ⟨s, hread', hreplays, honce, hsubmitted⟩ := h.durable
      obtain rfl := Option.some.inj (hread.symm.trans hread')
      refine ⟨hreplays, honce, hsubmitted, fun _ ↦ hread, fun i ↦ ?_⟩
      refine (h.calls i).crash rfl rfl rfl fun e he ↦ ?_
      rcases h.disk_cases with ⟨hahead, -⟩ | ⟨j, c, next, r, hahead, -, hphase⟩
      · rw [hahead] at he
        cases he
      · rw [hahead] at he
        rw [List.mem_singleton.mp he]
        exact ⟨next, hphase⟩

/-! ## Consequences -/

/-- A logged change is one of a call that succeeds, or was lost. -/
theorem Inv.phase_of_mem (h : Inv S Submits base st) {e : Entry ι γ ρ} (he : e ∈ st.log) :
    st.phase e.call = .published e.change e.result ∨
      st.phase e.call = .released e.change e.result ∨
      st.phase e.call = .ok e.change e.result ∨ st.phase e.call = .lost := by
  have hi := h.calls e.call
  have hsame : ∀ {c r}, (⟨e.call, c, r⟩ : Entry ι γ ρ) ∈ st.log → e.change = c ∧ e.result = r := by
    intro c r hc
    have heq := List.inj_on_of_nodup_map h.once he hc rfl
    exact ⟨congrArg Entry.change heq, congrArg Entry.result heq⟩
  cases hphase : st.phase e.call with
  | idle | failed | err =>
      rw [hphase] at hi
      exact absurd rfl (hi.2 e he)
  | waiting | locked | computed | persisted | failing =>
      rw [hphase] at hi
      exact absurd rfl (hi.2.1 e he)
  | published c r =>
      rw [hphase] at hi
      obtain ⟨rfl, rfl⟩ := hsame hi.2.1
      exact .inl rfl
  | released c r =>
      rw [hphase] at hi
      obtain ⟨rfl, rfl⟩ := hsame hi.2
      exact .inr (.inl rfl)
  | ok c r =>
      rw [hphase] at hi
      obtain ⟨rfl, rfl⟩ := hsame hi.2
      exact .inr (.inr (.inl rfl))
  | lost => exact .inr (.inr (.inr rfl))

/-- **A call takes effect in one step**, which makes of the published value what a change of the
call makes of it. -/
theorem Step.took_cases [DecidableEq ι] (hstep : Step S Submits i st st')
    (h : Inv S Submits base st) {j : ι} (hj : (st'.phase j).Took) (hnot : ¬ (st.phase j).Took) :
    ∃ c r, Submits j c ∧ S.apply c st.snap = .ok (st'.snap, r) := by
  rcases eq_or_ne j i with rfl | hne
  · cases hstep with
    | mutate hmutate =>
        cases hmutate with
        | publish hc =>
            have hi := h.calls j
            rw [hc] at hi
            exact ⟨_, _, hi.2.2.1, hi.2.2.2.2⟩
        | release hc =>
            rw [hc] at hnot
            exact absurd trivial hnot
        | acquire | compute | refuse | persist | persistFails | releaseFailed =>
            simp [Phase.Took] at hj
    | skip hc hsub happly => exact ⟨_, _, hsub, happly⟩
    | «return» hc =>
        rw [hc] at hnot
        exact absurd trivial hnot
    | submit | returnFailed => simp [Phase.Took] at hj
  · rw [hstep.phase_of_ne hne] at hj
    exact absurd hj hnot

/-- A call that was made before takes effect with the change that it submitted. -/
theorem Step.took_change [DecidableEq ι] (hstep : Step S Submits i st st')
    (h : Inv S Submits base st) (hi : (st'.phase i).Took) (hnot : ¬ (st.phase i).Took)
    (hmade : st.phase i ≠ .idle) :
    ∃ c r, (st.phase i).change? = some c ∧ S.apply c st.snap = .ok (st'.snap, r) := by
  cases hstep with
  | mutate hmutate =>
      cases hmutate with
      | publish hc =>
          have hcall := h.calls i
          rw [hc] at hcall
          exact ⟨_, _, by rw [hc, Phase.change?], hcall.2.2.2.2⟩
      | release hc =>
          rw [hc] at hnot
          exact absurd trivial hnot
      | acquire | compute | refuse | persist | persistFails | releaseFailed =>
          simp [Phase.Took] at hi
  | submit hc | skip hc => exact absurd hc hmade
  | «return» hc =>
      rw [hc] at hnot
      exact absurd trivial hnot
  | returnFailed => simp [Phase.Took] at hi

/-- A restart lets no call take effect that then succeeds. -/
theorem Restart.took (hrestart : Restart S st st') {j : ι} (hj : (st'.phase j).Took) :
    (st.phase j).Took := by
  cases hrestart with
  | mk hread =>
      cases hphase : st.phase j <;> simp_all [Phase.Took, Phase.crash]

/-- **At rest the disk has the published value.** -/
theorem Inv.disk_of_rest (h : Inv S Submits base st) (hrest : ∀ i, ¬ (st.phase i).InProgress) :
    S.read st.disk = some st.snap := by
  rcases h.disk_cases with ⟨-, hdisk⟩ | ⟨i, c, next, r, -, -, hphase⟩
  · exact hdisk
  · refine absurd ?_ (hrest i)
    rw [hphase]
    trivial

/-- **A property that every change still to be made keeps** stays true of the published value,
across steps. -/
theorem Step.keeps [DecidableEq ι] {P : σ → Prop} (hstep : Step S Submits i st st')
    (h : Inv S Submits base st)
    (hkeeps : ∀ c, Submits i c → ¬ (st.phase i).Spent →
      ∀ s s' r, S.apply c s = .ok (s', r) → P s → P s')
    (hP : P st.snap) : P st'.snap := by
  cases hstep with
  | mutate hmutate =>
      cases hmutate with
      | publish hc =>
          have hi := h.calls i
          rw [hc] at hi hkeeps
          obtain ⟨-, -, hsub, -, happly⟩ := hi
          exact hkeeps _ hsub id _ _ _ happly hP
      | acquire | compute | refuse | persist | persistFails | release | releaseFailed => exact hP
  | submit | skip | «return» | returnFailed => exact hP

/-- The same across restarts. -/
theorem Restart.keeps {P : σ → Prop} (hrestart : Restart S st st') (h : Inv S Submits base st)
    (hkeeps : ∀ i c, Submits i c → ¬ (st.phase i).Spent →
      ∀ s s' r, S.apply c s = .ok (s', r) → P s → P s')
    (hP : P st.snap) : P st'.snap := by
  cases hrestart with
  | mk hread =>
      rcases h.disk_cases with ⟨-, hdisk⟩ | ⟨i, c, next, r, -, -, hphase⟩
      · obtain rfl := Option.some.inj (hread.symm.trans hdisk)
        exact hP
      · have hi := h.calls i
        rw [hphase] at hi
        obtain ⟨-, -, hsub, hdisk, happly⟩ := hi
        obtain rfl := Option.some.inj (hread.symm.trans hdisk)
        exact hkeeps i c hsub (by rw [hphase]; exact id) _ _ _ happly hP

/-- **A property that every change keeps** stays true of what is on disk. -/
theorem Step.disk_keeps [DecidableEq ι] {P : σ → Prop} (hstep : Step S Submits i st st')
    (h : Inv S Submits base st)
    (hkeeps : ∀ c, Submits i c → ∀ s s' r, S.apply c s = .ok (s', r) → P s → P s')
    (hP : ∀ s, S.read st.disk = some s → P s) {s : σ} (hread : S.read st'.disk = some s) : P s := by
  cases hstep with
  | mutate hmutate =>
      cases hmutate with
      | persist hc =>
          have hi := h.calls i
          rw [hc] at hi
          obtain ⟨-, -, hsub, hdisk, happly⟩ := hi
          obtain rfl := Option.some.inj ((S.read_write _).symm.trans hread)
          exact hkeeps _ hsub _ _ _ happly (hP _ hdisk)
      | acquire | compute | refuse | persistFails | publish | release | releaseFailed =>
          exact hP s hread
  | submit | skip | «return» | returnFailed => exact hP s hread

end Invariant

/-! ## Another disk -/

section Disk

/-- The cell with something else on disk. -/
def State.withDisk (disk : δ) (st : State ι σ δ γ ρ ε) : State ι σ δ γ ρ ε := { st with disk }

/-- The step writes to disk. -/
def Persists (i : ι) (st st' : State ι σ δ γ ρ ε) : Prop :=
  ∃ c next r, st.phase i = .computed c next r ∧ st'.phase i = .persisted c next r

variable {S : Spec σ δ γ ρ ε} {i : ι} {st st' : State ι σ δ γ ρ ε}

/-- Only a call that has computed its value writes. -/
theorem not_persists {p : Phase σ γ ρ ε} (hi : st.phase i = p)
    (hp : ∀ c next r, p ≠ .computed c next r) : ¬ Persists i st st' := by
  rintro ⟨c, next, r, hbefore, -⟩
  exact hp c next r (hi.symm.trans hbefore)

/-- What does not move the call does not write. -/
theorem not_persists_self : ¬ Persists i st st := by
  rintro ⟨c, next, r, hbefore, hafter⟩
  cases hbefore.symm.trans hafter

/-- **No call reads the disk**, so that it does the same whatever is there: it writes what it
writes, or leaves it. -/
theorem Mutate.withDisk [DecidableEq ι] (h : Mutate S i st st') (disk : δ) :
    (Persists i st st' ∧ (∃ next, st'.disk = S.write next) ∧
      Mutate S i (st.withDisk disk) st') ∨
    (¬ Persists i st st' ∧ st'.disk = st.disk ∧
      Mutate S i (st.withDisk disk) (st'.withDisk disk)) := by
  cases h with
  | persist hi =>
      exact .inl ⟨⟨_, _, _, hi, State.set_phase_self i _ _⟩, ⟨_, rfl⟩, .persist hi⟩
  | acquire hi hfree => exact .inr ⟨not_persists hi (by simp), rfl, .acquire hi hfree⟩
  | compute hi happly => exact .inr ⟨not_persists hi (by simp), rfl, .compute hi happly⟩
  | refuse hi happly => exact .inr ⟨not_persists hi (by simp), rfl, .refuse hi happly⟩
  | publish hi => exact .inr ⟨not_persists hi (by simp), rfl, .publish hi⟩
  | release hi => exact .inr ⟨not_persists hi (by simp), rfl, .release hi⟩
  | releaseFailed hi => exact .inr ⟨not_persists hi (by simp), rfl, .releaseFailed hi⟩
  | persistFails hi =>
      refine .inr ⟨?_, rfl, .persistFails hi⟩
      rintro ⟨c, next, r, -, hafter⟩
      rw [State.set_phase_self] at hafter
      cases hafter

end Disk

/-! ## What a call has gone through -/

section Past

variable {S : Spec σ δ γ ρ ε} {Submits : ι → γ → Prop} {base : σ} {i j : ι}
  {st st' : State ι σ δ γ ρ ε} {past : List (State ι σ δ γ ρ ε)}

/-- In one of the states the call had the lock, and its change before it. -/
def Looked (i : ι) (past : List (State ι σ δ γ ρ ε)) : Prop :=
  ∃ m ∈ past, ∃ c, m.phase i = .locked c

/-- In one of the states the call had just written to disk. -/
def Wrote (i : ι) (past : List (State ι σ δ γ ρ ε)) : Prop :=
  ∃ m ∈ past, ∃ c next r, m.phase i = .persisted c next r

/-- The call had the lock for the change, which gives the result on every value that it had before
it. -/
structure Applied (S : Spec σ δ γ ρ ε) (i : ι) (c : γ) (r : ρ)
    (past : List (State ι σ δ γ ρ ε)) : Prop where
  looked : Looked i past
  apply : ∀ m ∈ past, ∀ c', m.phase i = .locked c' →
    c' = c ∧ ∃ next, S.apply c m.snap = .ok (next, r)

/-- What lies behind a call in a phase. -/
def PastInv (S : Spec σ δ γ ρ ε) (i : ι) (past : List (State ι σ δ γ ρ ε))
    (st : State ι σ δ γ ρ ε) : Phase σ γ ρ ε → Prop
  | .idle | .waiting _ => ¬ Looked i past ∧ ¬ Wrote i past
  | .locked c =>
      (∀ m ∈ past, ∀ c', m.phase i = .locked c' → c' = c ∧ m.snap = st.snap) ∧ ¬ Wrote i past
  | .computed c _ r => Applied S i c r past ∧ ¬ Wrote i past
  | .persisted c _ r => Applied S i c r past
  | .published c r => Applied S i c r past ∧ Wrote i past
  | .released c r | .ok c r =>
      (¬ Looked i past ∧ ¬ Wrote i past) ∨ (Applied S i c r past ∧ Wrote i past)
  | _ => True

theorem looked_concat :
    Looked i (past ++ [st]) ↔ Looked i past ∨ ∃ c, st.phase i = .locked c := by
  simp [Looked, or_and_right, exists_or]

theorem wrote_concat :
    Wrote i (past ++ [st]) ↔ Wrote i past ∨ ∃ c next r, st.phase i = .persisted c next r := by
  simp [Wrote, or_and_right, exists_or]

/-- A state in which the call does not have its change before it adds nothing. -/
theorem Applied.concat {c : γ} {r : ρ} (h : Applied S i c r past)
    (hst : ∀ c', st.phase i ≠ .locked c') : Applied S i c r (past ++ [st]) where
  looked := looked_concat.mpr (.inl h.looked)
  apply := by
    intro m hm c' hc'
    rcases List.mem_append.mp hm with hm | hm
    · exact h.apply m hm c' hc'
    · rw [List.mem_singleton.mp hm] at hc'
      exact absurd hc' (hst c')

/-- What lies behind a call stays behind it while the call stays in its phase, and the value while
it has the lock. -/
theorem PastInv.stay {p : Phase σ γ ρ ε} (h : PastInv S i past st p)
    (st' : State ι σ δ γ ρ ε) (hp : st.phase i = p)
    (hkeep : ∀ c, p = .locked c → st'.snap = st.snap) : PastInv S i (past ++ [st]) st' p := by
  cases p with
  | idle | waiting | computed | persisted | published | released | ok =>
      simp only [PastInv, looked_concat, wrote_concat, hp] at h ⊢
      grind [Applied.concat]
  | locked c =>
      refine ⟨fun m hm c' hc' ↦ ?_, ?_⟩
      · rw [hkeep c rfl]
        rcases List.mem_append.mp hm with hm | hm
        · exact h.1 m hm c' hc'
        · rw [List.mem_singleton.mp hm] at hc' ⊢
          rw [hp] at hc'
          exact ⟨Phase.locked.inj hc'.symm, rfl⟩
      · rw [wrote_concat, hp]
        rintro (hwrote | ⟨c, next, r, heq⟩)
        · exact h.2 hwrote
        · cases heq
  | failing | failed | err | lost => trivial

/-- A step of another call leaves the value to the holder of the lock. -/
theorem Step.snap_of_lock [DecidableEq ι] (h : Step S Submits j st st')
    (hinv : Inv S Submits base st) (hlock : st.lock = some i) (hne : i ≠ j) :
    st'.snap = st.snap := by
  cases h with
  | mutate hmutate =>
      cases hmutate with
      | publish hc =>
          have hj := hinv.calls j
          rw [hc] at hj
          exact absurd (Option.some.inj (hlock.symm.trans hj.1)) hne
      | acquire | compute | refuse | persist | persistFails | release | releaseFailed => rfl
  | submit | skip | «return» | returnFailed => rfl

/-- **What lies behind a call**, after one more step of any call. -/
theorem PastInv.step [DecidableEq ι] (h : PastInv S i past st (st.phase i))
    (hinv : Inv S Submits base st) (hstep : Step S Submits j st st') :
    PastInv S i (past ++ [st]) st' (st'.phase i) := by
  rcases eq_or_ne i j with rfl | hne
  · cases hstep with
    | submit hi hc =>
        rw [hi] at h
        rw [State.set_phase_self]
        exact h.stay st hi nofun
    | skip hi hc happly =>
        rw [hi] at h
        rw [State.skip_phase_self]
        exact .inl (h.stay st hi nofun)
    | mutate hmutate =>
        cases hmutate with
        | acquire hi hfree =>
            rw [hi] at h
            have hstay := h.stay st hi nofun
            rw [State.set_phase_self]
            exact ⟨fun m hm c' hc' ↦ absurd ⟨m, hm, c', hc'⟩ hstay.1, hstay.2⟩
        | @compute c next r hi happly =>
            rw [hi] at h
            have hstay := h.stay st hi fun _ _ ↦ rfl
            rw [State.set_phase_self]
            refine ⟨⟨looked_concat.mpr (.inr ⟨c, hi⟩), fun m hm c' hc' ↦ ?_⟩, hstay.2⟩
            obtain ⟨rfl, hsnap⟩ := hstay.1 m hm c' hc'
            exact ⟨rfl, next, hsnap ▸ happly⟩
        | persist hi =>
            rw [hi] at h
            rw [State.set_phase_self]
            exact (h.stay st hi nofun).1
        | publish hi =>
            rw [hi] at h
            rw [State.set_phase_self]
            exact ⟨h.stay st hi nofun, wrote_concat.mpr (.inr ⟨_, _, _, hi⟩)⟩
        | release hi =>
            rw [hi] at h
            rw [State.set_phase_self]
            exact .inr (h.stay st hi nofun)
        | refuse | persistFails | releaseFailed =>
            rw [State.set_phase_self]
            trivial
    | «return» hi =>
        rw [hi] at h
        rw [State.set_phase_self]
        exact h.stay st hi nofun
    | returnFailed hi =>
        rw [State.set_phase_self]
        trivial
  · rw [hstep.phase_of_ne hne]
    refine h.stay st' rfl fun c hc ↦ hstep.snap_of_lock hinv ?_ hne
    have hi := hinv.calls i
    rw [hc] at hi
    exact hi.1

end Past
/-! ## A call alone -/

section Alone

variable [DecidableEq ι] {S : Spec σ δ γ ρ ε} {i : ι} {st : State ι σ δ γ ρ ε} {c : γ}

/-- The state after a call that went through. -/
def State.done (S : Spec σ δ γ ρ ε) (i : ι) (c : γ) (next : σ) (r : ρ) (st : State ι σ δ γ ρ ε) :
    State ι σ δ γ ρ ε where
  snap := next
  disk := S.write next
  lock := none
  phase := Function.update st.phase i (.released c r)
  log := st.log ++ [⟨i, c, r⟩]

/-- A call that waits while the lock is free can go through. -/
theorem Mutate.alone (hi : st.phase i = .waiting c) (hfree : st.lock = none) {next : σ} {r : ρ}
    (happly : S.apply c st.snap = .ok (next, r)) :
    Relation.ReflTransGen (Mutate S i) st (st.done S i c next r) := by
  have hrun := ((((Relation.ReflTransGen.single (Mutate.acquire (S := S) hi hfree)).tail
    (.compute (State.set_phase_self i _ _) happly)).tail
    (.persist (State.set_phase_self i _ _))).tail
    (.publish (State.set_phase_self i _ _))).tail (.release (State.set_phase_self i _ _))
  simpa [State.set, State.done, Function.update_idem] using hrun

/-- Or fail to be written, and leave everything but its own phase. -/
theorem Mutate.alone_fails (hi : st.phase i = .waiting c) (hfree : st.lock = none) {next : σ}
    {r : ρ} (happly : S.apply c st.snap = .ok (next, r)) (e : ε) :
    Relation.ReflTransGen (Mutate S i) st (st.set i (.failed e)) := by
  have hrun := (((Relation.ReflTransGen.single (Mutate.acquire (S := S) hi hfree)).tail
    (.compute (State.set_phase_self i _ _) happly)).tail
    (.persistFails (e := e) (State.set_phase_self i _ _))).tail
    (.releaseFailed (State.set_phase_self i _ _))
  simpa [State.set, Function.update_idem, hfree] using hrun

/-- A change that refuses leaves everything but the phase of its call. -/
theorem Mutate.alone_refuses (hi : st.phase i = .waiting c) (hfree : st.lock = none) {e : ε}
    (happly : S.apply c st.snap = .error e) :
    Relation.ReflTransGen (Mutate S i) st (st.set i (.failed e)) := by
  have hrun := ((Relation.ReflTransGen.single (Mutate.acquire (S := S) hi hfree)).tail
    (.refuse (State.set_phase_self i _ _) happly)).tail
    (.releaseFailed (State.set_phase_self i _ _))
  simpa [State.set, Function.update_idem, hfree] using hrun

end Alone

end Vaiexia.Lib.DurableCell
