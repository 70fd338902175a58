import Vaiexia.Audit.Sessions

/-!
# From an emit to the files

Threads that emit events, one after another, on a sink (`Audit.Sink`).  An entry is an event with
the thread that emitted it; `Emitted` says what became of the entries so far, each for itself, and
`Emitted.written` what the files of the session have of those that were there before the end
came.
-/

namespace Vaiexia.Audit

open Vaiexia.Lib

/-- The first step of `emit`: the event goes into the queue, or the thread goes on to count it. -/
inductive TrySend {τ : Type} [DecidableEq τ] (capacity : Nat) (i : τ) (ev : AuditEvent) :
    SinkState τ → SinkState τ → Prop
  | accepted {s : SinkState τ} (hi : s.refused i = none) (hopen : s.closed = false)
      (hroom : s.queue.length < capacity) (halive : s.pc ≠ .done) :
      TrySend capacity i ev s { s with
        queue := s.queue ++ [.event ev]
        ghost := { s.ghost with sent := s.ghost.sent ++ [ev] } }
  | refused {s : SinkState τ} (hi : s.refused i = none) (hopen : s.closed = false)
      (hfull : capacity ≤ s.queue.length ∨ s.pc = .done) :
      TrySend capacity i ev s { s with refused := Function.update s.refused i (some ev) }

/-- What became of entries: each was accepted, or counted, or its thread is going to count it. -/
structure Emitted {τ : Type} (entries accepted counted : List (τ × AuditEvent))
    (s : SinkState τ) : Prop where
  sent : (accepted.map Prod.snd).Sublist s.ghost.sent
  lost : (counted.map Prod.snd).Sublist s.ghost.lost
  each : ∀ e ∈ entries, e ∈ accepted ∨ e ∈ counted ∨ s.refused e.1 = some e.2

section

variable {τ : Type} [DecidableEq τ] {blake3 : Bytes → Bytes32} {fromStr : List Char → Option Json}
  {w : Writer} {capacity : Nat} {i : τ} {ev : AuditEvent}
  {entries accepted counted : List (τ × AuditEvent)} {s s' : SinkState τ}

/-- It is a step of an emit. -/
theorem TrySend.emitStep (h : TrySend capacity i ev s s') : EmitStep capacity i s s' := by
  cases h with
  | accepted hi hopen hroom halive => exact .accept ev hi hopen hroom halive
  | refused hi hopen hfull => exact .refuse ev hi hopen hfull

omit [DecidableEq τ] in
theorem Emitted.start (file : WriterState) : Emitted [] [] [] (.start file : SinkState τ) where
  sent := .slnil
  lost := .slnil
  each := fun _ he ↦ absurd he List.not_mem_nil

/-- A thread that is refused an event was not counting another. -/
theorem Emitted.refuse (h : Emitted entries accepted counted s) (hi : s.refused i = none)
    (ev : AuditEvent) :
    Emitted entries accepted counted
      { s with refused := Function.update s.refused i (some ev) } where
  sent := h.sent
  lost := h.lost
  each := by
    intro e he
    refine (h.each e he).imp id (Or.imp id fun hrefused ↦ ?_)
    have hne : e.1 ≠ i := by
      rintro rfl
      cases hi.symm.trans hrefused
    show Function.update s.refused i (some ev) e.1 = some e.2
    rwa [Function.update_of_ne hne]

/-- **An entry is added** when its event is sent. -/
theorem TrySend.emitted (hsend : TrySend capacity i ev s s')
    (h : Emitted entries accepted counted s) :
    ∃ accepted', Emitted (entries ++ [(i, ev)]) accepted' counted s' := by
  cases hsend with
  | accepted =>
      refine ⟨accepted ++ [(i, ev)], ?_, h.lost, fun e he ↦ ?_⟩
      · rw [List.map_append]
        exact h.sent.append (.refl _)
      · rcases List.mem_append.mp he with he | he
        · exact (h.each e he).imp (List.mem_append_left _) id
        · exact .inl (List.mem_append_right _ he)
  | refused hi =>
      have hrefuse := h.refuse hi ev
      refine ⟨accepted, hrefuse.sent, hrefuse.lost, fun e he ↦ ?_⟩
      rcases List.mem_append.mp he with he | he
      · exact hrefuse.each e he
      · rw [List.mem_singleton.mp he]
        exact .inr (.inr (Function.update_self _ _ _))

/-- Nothing that an emit does later changes what became of the entries. -/
theorem EmitStep.emitted (hstep : EmitStep capacity i s s')
    (h : Emitted entries accepted counted s) :
    ∃ counted', Emitted entries accepted counted' s' := by
  cases hstep with
  | accept => exact ⟨counted, h.sent.trans (List.sublist_append_left _ _), h.lost, h.each⟩
  | refuse ev hi => exact ⟨counted, h.refuse hi ev⟩
  | @count ev hi =>
      refine ⟨counted ++ [(i, ev)], h.sent, ?_, fun e he ↦ ?_⟩
      · rw [List.map_append]
        exact h.lost.append (.refl _)
      · rcases h.each e he with haccepted | hcounted | hrefused
        · exact .inl haccepted
        · exact .inr (.inl (List.mem_append_left _ hcounted))
        · by_cases hne : e.1 = i
          · -- it is the entry of this event
            rw [hne, hi] at hrefused
            obtain rfl : e = (i, ev) := Prod.ext hne (Option.some.inj hrefused).symm
            exact .inr (.inl (List.mem_append_right _ (List.mem_singleton_self _)))
          · refine .inr (.inr ?_)
            show Function.update s.refused i none e.1 = some e.2
            rwa [Function.update_of_ne hne]
  | shutdown => exact ⟨counted, h.sent, h.lost, h.each⟩

omit [DecidableEq τ] in
theorem CloseStep.emitted (hstep : CloseStep s s') (h : Emitted entries accepted counted s) :
    Emitted entries accepted counted s' := by
  cases hstep with
  | close => exact ⟨h.sent, h.lost, h.each⟩

omit [DecidableEq τ] in
theorem WriterStep.emitted (hstep : WriterStep blake3 w s s')
    (h : Emitted entries accepted counted s) : Emitted entries accepted counted s' := by
  cases hstep <;> exact ⟨h.sent, h.lost, h.each⟩

/-! ## The end of a session -/

/-- What was accepted and counted before is among what was when the end came. -/
structure Since (t s : SinkState τ) : Prop where
  sent : t.ghost.sent <+: s.ghost.sent
  lost : t.ghost.lost <+: s.ghost.lost
  ended : ∀ sent₀ lost₀, s.ghost.ended = some (sent₀, lost₀) →
    t.ghost.sent <+: sent₀ ∧ t.ghost.lost <+: lost₀

omit [DecidableEq τ] in
/-- The end comes now, or it came before. -/
theorem Since.finish {t : SinkState τ} (h : Since t s) {sent₀ lost₀ : List AuditEvent}
    (hend : s.finish.ended = some (sent₀, lost₀)) :
    t.ghost.sent <+: sent₀ ∧ t.ghost.lost <+: lost₀ := by
  rw [SinkState.finish] at hend
  cases hended : s.ghost.ended with
  | none =>
      rw [hended] at hend
      obtain ⟨rfl, rfl⟩ := Prod.mk.inj (Option.some.inj hend)
      exact ⟨h.sent, h.lost⟩
  | some ended =>
      rw [hended] at hend
      exact h.ended _ _ (hended.trans hend)

theorem Since.step {t : SinkState τ} (h : Since t s)
    (hstep : SinkStep blake3 w capacity s s') : Since t s' := by
  rcases hstep with ⟨i, hstep⟩ | hstep | hstep
  · cases hstep with
    | accept => exact ⟨h.sent.trans (List.prefix_append _ _), h.lost, h.ended⟩
    | refuse => exact ⟨h.sent, h.lost, h.ended⟩
    | count => exact ⟨h.sent, h.lost.trans (List.prefix_append _ _), h.ended⟩
    | shutdown => exact ⟨h.sent, h.lost, fun _ _ ↦ h.finish⟩
  · cases hstep with
    | close => exact ⟨h.sent, h.lost, fun _ _ ↦ h.finish⟩
  · cases hstep <;> exact ⟨h.sent, h.lost, h.ended⟩

/-- What is not at its end has what comes then before it. -/
theorem Since.of_run {t : SinkState τ} (hended : t.ghost.ended = none)
    (hrun : SinkRun blake3 w capacity t s) : Since t s := by
  induction hrun with
  | refl => exact ⟨List.prefix_rfl, List.prefix_rfl, fun _ _ hend ↦ by cases hended.symm.trans hend⟩
  | tail _ hstep ih => exact ih.step hstep

/-- The events from the queue are records of their own. -/
theorem events_sublist (es : List BatchEntry) :
    (events es).Sublist (es.map BatchEntry.toEvent) := by
  induction es with
  | nil => exact .slnil
  | cons e es ih =>
      cases e with
      | event ev => exact ih.cons_cons ev
      | loss now lost => exact ih.cons _

/-- **What there was before the end is written**, when the writer is done: each entry that was
accepted has a record, and each that was counted has a share in a loss record. -/
theorem Emitted.written {t : SinkState τ} (h : Emitted entries accepted counted t)
    (hended : t.ghost.ended = none) {file : WriterState}
    (hbefore : SinkRun blake3 w capacity (.start file) t) (hafter : SinkRun blake3 w capacity t s)
    (hdone : s.pc = .done) :
    (accepted.map Prod.snd).Sublist (s.out.flatten.map BatchEntry.toEvent) ∧
      (counted.map Prod.snd).Sublist (lostOf s.out.flatten) := by
  obtain ⟨sent₀, lost₀, hcomplete⟩ := complete_of_done (hbefore.trans hafter) hdone
  obtain ⟨hsent, hlost⟩ := (Since.of_run hended hafter).ended sent₀ lost₀ hcomplete.ended
  constructor
  · exact ((h.sent.trans hsent.sublist).trans hcomplete.sent.sublist).trans (events_sublist _)
  · exact (h.lost.trans hlost.sublist).trans hcomplete.lost.sublist

end

end Vaiexia.Audit
