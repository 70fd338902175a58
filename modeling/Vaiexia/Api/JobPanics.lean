import Vaiexia.Api.Server

/-!
# Job futures that panic

The task that `try_start` spawns awaits the future of its job, sends the terminal status and stores
it.  A future that panics unwinds the task: the runtime catches the panic, and nothing of the task
runs after it.  `Tasks` is the registry with the tasks that were unwound, and a run of it is a run
of the registry with panics in between.
-/

namespace Vaiexia.Api

open Vaiexia.Auth Vaiexia.Backend
open Registry (twoIds twoIds_injective)

/-- The registry, and the tasks that a panic of their future has unwound. -/
structure Tasks (ι : Type) where
  registry : Registry ι
  panicked : ι → Bool

namespace Tasks

variable {ι : Type}

/-- A new registry. -/
def new : Tasks ι where
  registry := .new
  panicked := fun _ ↦ false

/-- The task is over: it was unwound, or it has stored its terminal status. -/
def Finished (t : Tasks ι) (i : ι) : Prop :=
  t.panicked i = true ∨ ∃ result, t.registry.phase i = .stored result

/-- A job whose task is over is not running for whoever asks and does not have the slot, so that
with no other job underway the next `try_start` is accepted. -/
structure SlotReleased (ids : ι → String) (t : Tasks ι) : Prop where
  status : ∀ i, t.Finished i → ∀ s, t.registry.inner.status (ids i) = some s → s.state ≠ .running
  slot : ∀ id, t.registry.inner.running = some id →
    ∃ i, ids i = id ∧ (t.registry.phase i).Active ∧ ¬ t.Finished i
  next : (∀ i, (t.registry.phase i).Active → t.Finished i) →
    ∀ id, (t.registry.inner.tryStart id).2 = .ok id

variable [DecidableEq ι]

/-- One step of a call of `try_start` or of its task, or the panic of a future that is awaited. -/
inductive Step (ids : ι → String) (i : ι) : Tasks ι → Tasks ι → Prop
  | step {t : Tasks ι} {r : Registry ι} (hi : t.panicked i = false)
      (hstep : Registry.Step ids i t.registry r) : Step ids i t { t with registry := r }
  | unwind {t : Tasks ι} (hi : t.panicked i = false) (hphase : t.registry.phase i = .spawned) :
      Step ids i t { t with panicked := Function.update t.panicked i true }

/-- Any interleaving of calls and tasks. -/
abbrev Run (ids : ι → String) : Tasks ι → Tasks ι → Prop :=
  Relation.ReflTransGen fun t t' ↦ ∃ i, Step ids i t t'

section Slot

variable {ids : ι → String} {t t' : Tasks ι} {i : ι}

/-- The registry does not notice a panic. -/
theorem Run.registry (hrun : Run ids t t') : Registry.Run ids t.registry t'.registry := by
  induction hrun with
  | refl => exact .refl
  | tail _ hmove ih =>
      obtain ⟨i, hstep⟩ := hmove
      cases hstep with
      | step _ hstep => exact ih.tail ⟨i, hstep⟩
      | unwind => exact ih

/-- A task that was unwound was awaiting its future, and will not come further. -/
theorem Run.phase_of_panicked (hrun : Run ids new t) :
    ∀ i, t.panicked i = true → t.registry.phase i = .spawned := by
  induction hrun with
  | refl => exact nofun
  | @tail t t' _ hmove ih =>
      obtain ⟨i, hstep⟩ := hmove
      intro j hj
      cases hstep with
      | step hi hstep =>
          have hne : j ≠ i := by
            rintro rfl
            exact Bool.false_ne_true (hi.symm.trans hj)
          rw [hstep.phase_of_ne hne]
          exact ih j hj
      | unwind hi hphase =>
          by_cases hne : j = i
          · subst hne
            exact hphase
          · dsimp only at hj
            rw [Function.update_of_ne hne] at hj
            exact ih j hj

/-- A panic is for good. -/
theorem Run.panicked (hrun : Run ids t t') (hi : t.panicked i = true) : t'.panicked i = true := by
  induction hrun with
  | refl => exact hi
  | tail _ hmove ih =>
      obtain ⟨j, hstep⟩ := hmove
      cases hstep with
      | step => exact ih
      | unwind =>
          by_cases hne : i = j
          · subst hne
            exact Function.update_self _ _ _
          · exact (Function.update_of_ne hne _ _).trans ih

/-- The job of a task that was unwound keeps the slot and is running for whoever asks. -/
theorem Run.leaked (hids : Function.Injective ids) (hrun : Run ids new t)
    (hi : t.panicked i = true) :
    t.registry.inner.running = some (ids i) ∧
      t.registry.inner.status (ids i) = some (initialStatus (ids i)) ∧
      ∀ id, (t.registry.inner.tryStart id).2 = .error .busy := by
  have h := hrun.registry.inv hids
  have hactive : (t.registry.phase i).Active := by
    rw [hrun.phase_of_panicked i hi]
    trivial
  have hslot := h.slot i hactive
  refine ⟨hslot, h.status_active hids hactive, fun id ↦ ?_⟩
  simp [RegistryInner.tryStart, hslot]

/-- Without a panic, a task that is over has stored its terminal status. -/
theorem SlotReleased.of_quiet (hids : Function.Injective ids) (hrun : Run ids new t)
    (hquiet : ∀ i, t.panicked i = false) : SlotReleased ids t := by
  have h := hrun.registry.inv hids
  have hstored : ∀ i, t.Finished i → ∃ result, t.registry.phase i = .stored result := by
    rintro i (hi | hi)
    · exact absurd (hi.symm.trans (hquiet i)) (Bool.false_ne_true ∘ Eq.symm)
    · exact hi
  have hopen : ∀ i, (t.registry.phase i).Active → ¬ t.Finished i := by
    intro i hactive hfinished
    obtain ⟨result, hphase⟩ := hstored i hfinished
    rw [hphase] at hactive
    exact hactive
  have hslot : ∀ id, t.registry.inner.running = some id →
      ∃ i, ids i = id ∧ (t.registry.phase i).Active ∧ ¬ t.Finished i := by
    intro id hid
    obtain ⟨i, hi, hactive⟩ := h.holder id hid
    exact ⟨i, hi, hactive, hopen i hactive⟩
  refine ⟨?_, hslot, ?_⟩
  · intro i hfinished s hs
    obtain ⟨result, hphase⟩ := hstored i hfinished
    obtain ⟨before, later, hsplit⟩ := List.append_of_mem ((h.completed i result).mpr hphase)
    rw [h.status_completed hids hsplit] at hs
    split at hs
    · obtain rfl := Option.some.inj hs
      rcases result with diagnostic | ⟨⟩ <;> exact nofun
    · cases hs
  · intro hall id
    have hfree : t.registry.inner.running = none := by
      rw [Option.eq_none_iff_forall_ne_some]
      intro id' hid'
      obtain ⟨i, -, hactive, hfinished⟩ := hslot id' hid'
      exact hfinished (hall i hactive)
    simp [RegistryInner.tryStart, hfree]

/-- **When the slot is released.**  In every state that calls of `try_start` and their tasks can
reach, in any interleaving and however the futures end, the slot is that of a job that is still
underway, exactly if no future has panicked. -/
theorem slotReleased_iff (hids : Function.Injective ids) (hrun : Run ids new t) :
    SlotReleased ids t ↔ ∀ i, t.panicked i = false := by
  constructor
  · intro hreleased i
    rw [← Bool.not_eq_true]
    intro hi
    obtain ⟨j, hj, -, hfinished⟩ := hreleased.slot _ (hrun.leaked hids hi).1
    obtain rfl := hids hj
    exact hfinished (.inl hi)
  · exact .of_quiet hids hrun

end Slot

/-- One job that panics: its task is over, and every later call is refused. -/
theorem not_slotReleased :
    ∃ t : Tasks Bool, Run twoIds new t ∧ t.Finished true ∧
      (∀ id, (t.registry.inner.tryStart id).2 = .error .busy) ∧
      t.registry.inner.status (twoIds true) = some (initialStatus (twoIds true)) ∧
      ¬ SlotReleased twoIds t := by
  have hrun : Run twoIds (new : Tasks Bool) _ :=
    (((Relation.ReflTransGen.single ⟨true, .step rfl (.accept rfl rfl)⟩).tail
      ⟨true, .step rfl (.announce rfl)⟩).tail ⟨true, .step rfl (.spawn rfl)⟩).tail
      ⟨true, .unwind rfl rfl⟩
  obtain ⟨hslot, hstatus, hbusy⟩ := hrun.leaked twoIds_injective (i := true) rfl
  refine ⟨_, hrun, .inl rfl, hbusy, hstatus, fun hreleased ↦ ?_⟩
  obtain ⟨j, hj, -, hfinished⟩ := hreleased.slot _ hslot
  obtain rfl := twoIds_injective hj
  exact hfinished (.inl rfl)

/-- One job that fails and another that is underway. -/
theorem slotReleased_iff_failed :
    ∃ t : Tasks Bool, Run twoIds new t ∧ t.Finished true ∧
      t.registry.inner.running = some (twoIds false) ∧ SlotReleased twoIds t := by
  have hrun : Run twoIds (new : Tasks Bool) _ :=
    (((((Relation.ReflTransGen.single ⟨true, .step rfl (.accept rfl rfl)⟩).tail
      ⟨true, .step rfl (.announce rfl)⟩).tail ⟨true, .step rfl (.spawn rfl)⟩).tail
      ⟨true, .step rfl (.finish (.error (backendErrorToDiagnostic .timeout)) rfl)⟩).tail
      ⟨true, .step rfl (.store rfl)⟩).tail ⟨false, .step rfl (.accept rfl rfl)⟩
  exact ⟨_, hrun, .inr ⟨_, rfl⟩, rfl, (slotReleased_iff twoIds_injective hrun).mpr fun _ ↦ rfl⟩

end Tasks

end Vaiexia.Api
