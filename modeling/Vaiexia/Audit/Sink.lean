import Mathlib.Data.List.Infix
import Mathlib.Logic.Function.Basic
import Mathlib.Logic.Relation
import Vaiexia.Audit.Chain

/-!
# The sink

`FileAuditSink` and the loop of `FileAuditWriter::run`, from
`crates/vaiexia-server/src/audit/file.rs`, with any number of threads that emit.  The channel is a
bounded first-in first-out queue; an emit that finds it full, or finds the receiver gone, counts
itself in a second step.  The steps of the loop are those at which another thread can come in
between: the swaps of the counter, each receipt, and the writing of a batch, which meets no error
here.

The counter is a `u64` and is never near its limit.

The fields of `Ghost` are not part of the program.  They say which events were accepted and which
were refused, and, with the entries of a batch, which refused events a loss record stands for; what
the writer owes is `Owes`, and every step pays or keeps it.
-/

namespace Vaiexia.Audit

open Vaiexia.Lib

/-- `BATCH`. -/
def batchLen : Nat := 64

/-- `Msg`. -/
inductive Msg where
  | event (ev : AuditEvent)
  | shutdown

/-- What a batch is made of: an event from the queue, or a loss record with the events that it
stands for. -/
inductive BatchEntry where
  | event (ev : AuditEvent)
  | loss (now : UInt64) (lost : List AuditEvent)

namespace BatchEntry

/-- The event that is written. -/
def toEvent : BatchEntry → AuditEvent
  | event ev => ev
  | loss now lost =>
      (AuditEvent.new now .auditLoss .err "audit").withDetail s!"dropped={lost.length}"

/-- The event from the queue. -/
def event? : BatchEntry → Option AuditEvent
  | event ev => some ev
  | loss .. => none

/-- The events of a loss record. -/
def lost : BatchEntry → List AuditEvent
  | event _ => []
  | loss _ lost => lost

end BatchEntry

/-- Where the loop of `run` is. -/
inductive Pc where
  /-- Before the swap of the counter. -/
  | top
  /-- Before the test whether the batch is empty. -/
  | receive
  | fill
  | write
  /-- After the loop. -/
  | drain
  | lastSwap
  | lastWrite
  | done
deriving DecidableEq

/-- What was accepted into the queue, what was refused and counted, and what of that no loss record
stands for yet; and the first two as they were when the last sink was dropped or a shutdown was
requested. -/
structure Ghost where
  sent : List AuditEvent
  lost : List AuditEvent
  uncounted : List AuditEvent
  ended : Option (List AuditEvent × List AuditEvent)

/-- The channel, the counter, the threads that emit, and the writer. -/
structure SinkState (ι : Type) where
  queue : List Msg
  dropped : Nat
  /-- The event of an emit that was refused and has not counted itself yet. -/
  refused : ι → Option AuditEvent
  /-- All sinks are dropped. -/
  closed : Bool
  pc : Pc
  batch : List BatchEntry
  stopping : Bool
  file : WriterState
  ghost : Ghost
  /-- The batches that were written. -/
  out : List (List BatchEntry)

namespace SinkState

variable {ι : Type}

/-- A sink whose writer starts. -/
def start (file : WriterState) : SinkState ι where
  queue := []
  dropped := 0
  refused := fun _ ↦ none
  closed := false
  pc := .top
  batch := []
  stopping := false
  file := file
  ghost := ⟨[], [], [], none⟩
  out := []

/-- The end condition has come, if it had not before. -/
def finish (s : SinkState ι) : Ghost :=
  { s.ghost with ended := s.ghost.ended.orElse fun _ ↦ some (s.ghost.sent, s.ghost.lost) }

/-- `self.dropped.swap(0)`, with the loss record if there is a loss. -/
def swap (now : UInt64) (pc : Pc) (s : SinkState ι) : SinkState ι :=
  { s with
    dropped := 0
    pc := pc
    batch := if 0 < s.dropped then s.batch ++ [.loss now s.ghost.uncounted] else s.batch
    ghost := { s.ghost with uncounted := [] } }

/-- `write_batch`, and what follows. -/
def writeOut (blake3 : Bytes → Bytes32) (w : Writer) (pc : Pc) (s : SinkState ι) : SinkState ι :=
  { s with
    pc := pc
    file := (w.writeBatch blake3 s.file (withoutFaults (s.batch.map BatchEntry.toEvent))).1
    batch := []
    out := s.out ++ [s.batch] }

end SinkState

section Steps

variable {ι : Type} [DecidableEq ι] (blake3 : Bytes → Bytes32) (w : Writer) (capacity : Nat)

/-- A step of a thread that has a sink. -/
inductive EmitStep (i : ι) : SinkState ι → SinkState ι → Prop
  | accept {s : SinkState ι} (ev : AuditEvent) (hi : s.refused i = none)
      (hopen : s.closed = false) (hroom : s.queue.length < capacity) (halive : s.pc ≠ .done) :
      EmitStep i s { s with
        queue := s.queue ++ [.event ev]
        ghost := { s.ghost with sent := s.ghost.sent ++ [ev] } }
  | refuse {s : SinkState ι} (ev : AuditEvent) (hi : s.refused i = none)
      (hopen : s.closed = false) (hfull : capacity ≤ s.queue.length ∨ s.pc = .done) :
      EmitStep i s { s with refused := Function.update s.refused i (some ev) }
  | count {s : SinkState ι} {ev : AuditEvent} (hi : s.refused i = some ev) :
      EmitStep i s { s with
        dropped := s.dropped + 1
        refused := Function.update s.refused i none
        ghost := { s.ghost with
          lost := s.ghost.lost ++ [ev]
          uncounted := s.ghost.uncounted ++ [ev] } }
  | shutdown {s : SinkState ι} (hi : s.refused i = none) (hopen : s.closed = false)
      (hroom : s.queue.length < capacity) (halive : s.pc ≠ .done) :
      EmitStep i s { s with queue := s.queue ++ [.shutdown], ghost := s.finish }

/-- The last sink is dropped: nobody is emitting. -/
inductive CloseStep : SinkState ι → SinkState ι → Prop
  | close {s : SinkState ι} (hidle : ∀ i, s.refused i = none) (hopen : s.closed = false) :
      CloseStep s { s with closed := true, ghost := s.finish }

/-- A step of `run`. -/
inductive WriterStep : SinkState ι → SinkState ι → Prop
  | swap {s : SinkState ι} (now : UInt64) (hpc : s.pc = .top) : WriterStep s (s.swap now .receive)
  | notEmpty {s : SinkState ι} (hpc : s.pc = .receive) (hbatch : s.batch ≠ []) :
      WriterStep s { s with pc := .fill }
  | blockingRecv {s : SinkState ι} {ev : AuditEvent} {queue : List Msg} (hpc : s.pc = .receive)
      (hbatch : s.batch = []) (hqueue : s.queue = .event ev :: queue) :
      WriterStep s { s with queue, pc := .fill, batch := s.batch ++ [.event ev] }
  | blockingRecvShutdown {s : SinkState ι} {queue : List Msg} (hpc : s.pc = .receive)
      (hbatch : s.batch = []) (hqueue : s.queue = .shutdown :: queue) :
      WriterStep s { s with queue, pc := .drain }
  | blockingRecvNone {s : SinkState ι} (hpc : s.pc = .receive) (hbatch : s.batch = [])
      (hqueue : s.queue = []) (hclosed : s.closed = true) :
      WriterStep s { s with pc := .drain }
  | tryRecv {s : SinkState ι} {ev : AuditEvent} {queue : List Msg} (hpc : s.pc = .fill)
      (hlen : s.batch.length < batchLen) (hqueue : s.queue = .event ev :: queue) :
      WriterStep s { s with queue, batch := s.batch ++ [.event ev] }
  | tryRecvShutdown {s : SinkState ι} {queue : List Msg} (hpc : s.pc = .fill)
      (hlen : s.batch.length < batchLen) (hqueue : s.queue = .shutdown :: queue) :
      WriterStep s { s with queue, pc := .write, stopping := true }
  | tryRecvNone {s : SinkState ι} (hpc : s.pc = .fill) (hlen : s.batch.length < batchLen)
      (hqueue : s.queue = []) : WriterStep s { s with pc := .write }
  | full {s : SinkState ι} (hpc : s.pc = .fill) (hlen : batchLen ≤ s.batch.length) :
      WriterStep s { s with pc := .write }
  | writeBatch {s : SinkState ι} (hpc : s.pc = .write) :
      WriterStep s (s.writeOut blake3 w (if s.stopping then .drain else .top))
  | drain {s : SinkState ι} {ev : AuditEvent} {queue : List Msg} (hpc : s.pc = .drain)
      (hqueue : s.queue = .event ev :: queue) :
      WriterStep s { s with queue, batch := s.batch ++ [.event ev] }
  | drainShutdown {s : SinkState ι} {queue : List Msg} (hpc : s.pc = .drain)
      (hqueue : s.queue = .shutdown :: queue) :
      WriterStep s { s with queue, pc := .lastSwap }
  | drainNone {s : SinkState ι} (hpc : s.pc = .drain) (hqueue : s.queue = []) :
      WriterStep s { s with pc := .lastSwap }
  | lastSwap {s : SinkState ι} (now : UInt64) (hpc : s.pc = .lastSwap) :
      WriterStep s (s.swap now .lastWrite)
  | lastWrite {s : SinkState ι} (hpc : s.pc = .lastWrite) (hbatch : s.batch ≠ []) :
      WriterStep s (s.writeOut blake3 w .done)
  | nothingLeft {s : SinkState ι} (hpc : s.pc = .lastWrite) (hbatch : s.batch = []) :
      WriterStep s { s with pc := .done }

/-- One step of anybody. -/
def SinkStep (s s' : SinkState ι) : Prop :=
  (∃ i, EmitStep capacity i s s') ∨ CloseStep s s' ∨ WriterStep blake3 w s s'

/-- Any interleaving. -/
abbrev SinkRun : SinkState ι → SinkState ι → Prop :=
  Relation.ReflTransGen (SinkStep blake3 w capacity)

end Steps

/-! ## What the writer owes -/

/-- The events from the queue among the entries of batches. -/
def events (entries : List BatchEntry) : List AuditEvent := entries.filterMap BatchEntry.event?

/-- The events that loss records stand for. -/
def lostOf (entries : List BatchEntry) : List AuditEvent := entries.flatMap BatchEntry.lost

/-- The events in a queue. -/
def queued : List Msg → List AuditEvent
  | [] => []
  | .event ev :: queue => ev :: queued queue
  | .shutdown :: queue => queued queue

/-- The events in a queue before the first request to shut down. -/
def due : List Msg → List AuditEvent
  | [] => []
  | .event ev :: queue => ev :: due queue
  | .shutdown :: _ => []

section Lists

variable {es es' : List BatchEntry} {queue queue' : List Msg}

@[simp] theorem events_append : events (es ++ es') = events es ++ events es' :=
  List.filterMap_append

@[simp] theorem lostOf_append : lostOf (es ++ es') = lostOf es ++ lostOf es' := List.flatMap_append

@[simp] theorem events_event (ev : AuditEvent) : events [.event ev] = [ev] := rfl

@[simp] theorem events_loss (now : UInt64) (lost : List AuditEvent) :
    events [.loss now lost] = [] := rfl

@[simp] theorem lostOf_event (ev : AuditEvent) : lostOf [.event ev] = [] := rfl

@[simp] theorem lostOf_loss (now : UInt64) (lost : List AuditEvent) :
    lostOf [.loss now lost] = lost := List.append_nil lost

theorem queued_append : queued (queue ++ queue') = queued queue ++ queued queue' := by
  induction queue with
  | nil => rfl
  | cons m queue ih =>
      cases m with
      | event ev => exact congrArg (ev :: ·) ih
      | shutdown => exact ih

/-- Without a request everything is due. -/
theorem due_eq_queued (h : Msg.shutdown ∉ queue) : due queue = queued queue := by
  induction queue with
  | nil => rfl
  | cons m queue ih =>
      obtain ⟨hm, hrest⟩ := not_or.mp (mt List.mem_cons.mpr h)
      cases m with
      | event ev => exact congrArg (ev :: ·) (ih hrest)
      | shutdown => exact absurd rfl hm

/-- What is sent later makes nothing that is due less due. -/
theorem due_prefix_append : due queue <+: due (queue ++ queue') := by
  induction queue with
  | nil => exact List.nil_prefix
  | cons m queue ih =>
      cases m with
      | event ev => exact List.cons_prefix_cons.mpr ⟨rfl, ih⟩
      | shutdown => exact List.prefix_refl _

end Lists

namespace SinkState

variable {ι : Type}

/-- What has been taken from the queue or stands for what was refused. -/
def taken (s : SinkState ι) : List BatchEntry := s.out.flatten ++ s.batch

/-- The loop has seen the end. -/
def Past (s : SinkState ι) : Prop :=
  s.stopping = true ∨ s.pc = .drain ∨ s.pc = .lastSwap ∨ s.pc = .lastWrite ∨ s.pc = .done

/-- The counter has been read for the last time. -/
def Settled (s : SinkState ι) : Prop := s.pc = .lastWrite ∨ s.pc = .done

end SinkState

/-- What the writer owes of the events that were sent, and of those that were refused, before the
end condition: the first ones it has taken or will find in the queue, and the others it has counted
or will find in the counter. -/
structure Owes {ι : Type} (s : SinkState ι) (sent₀ lost₀ : List AuditEvent) : Prop where
  loop : sent₀ <+: events s.taken ++ due s.queue
  past : s.Past → sent₀ <+: events s.taken
  lost : lost₀ <+: s.ghost.lost
  settled : s.Settled → lost₀ <+: lostOf s.taken

/-- The invariant of the sink, for a writer that started with `file₀`. -/
structure SinkInv {ι : Type} (blake3 : Bytes → Bytes32) (w : Writer) (file₀ : WriterState)
    (s : SinkState ι) : Prop where
  sent : s.ghost.sent = events s.taken ++ queued s.queue
  lost : s.ghost.lost = lostOf s.taken ++ s.ghost.uncounted
  dropped : s.dropped = s.ghost.uncounted.length
  reason : s.Past ∨ s.closed = true ∨ Msg.shutdown ∈ s.queue → s.ghost.ended ≠ none
  owes : ∀ sent₀ lost₀, s.ghost.ended = some (sent₀, lost₀) → Owes s sent₀ lost₀
  done : s.pc = .done → s.batch = []
  file : s.file = w.writeBatches blake3 file₀
    (s.out.map fun batch ↦ withoutFaults (batch.map BatchEntry.toEvent))

section Invariant

variable {ι : Type} {blake3 : Bytes → Bytes32} {w : Writer} {capacity : Nat}
  {file₀ : WriterState} {s s' : SinkState ι} {i : ι}

theorem SinkInv.start : SinkInv blake3 w file₀ (.start file₀ : SinkState ι) where
  sent := rfl
  lost := rfl
  dropped := rfl
  reason := by simp [SinkState.start, SinkState.Past]
  owes := nofun
  done := nofun
  file := rfl

/-- When the end condition comes, everything that was sent is due. -/
theorem SinkInv.owes_finish (h : SinkInv blake3 w file₀ s) {sent₀ lost₀ : List AuditEvent}
    (hend : s.finish.ended = some (sent₀, lost₀)) : Owes s sent₀ lost₀ := by
  rw [SinkState.finish] at hend
  rcases hended : s.ghost.ended with _ | ⟨sent₁, lost₁⟩
  · rw [hended] at hend
    obtain ⟨rfl, rfl⟩ := Prod.mk.inj (Option.some.inj hend)
    have hnone : ¬ (s.Past ∨ s.closed = true ∨ Msg.shutdown ∈ s.queue) := fun hr ↦
      h.reason hr hended
    have hpast : ¬ s.Past := fun hp ↦ hnone (.inl hp)
    have hqueue : Msg.shutdown ∉ s.queue := fun hq ↦ hnone (.inr (.inr hq))
    refine ⟨?_, fun hp ↦ absurd hp hpast, List.prefix_refl _, fun hs ↦ absurd ?_ hpast⟩
    · rw [h.sent, due_eq_queued hqueue]
    · rcases hs with hs | hs
      · exact .inr (.inr (.inr (.inl hs)))
      · exact .inr (.inr (.inr (.inr hs)))
  · rw [hended] at hend
    obtain ⟨rfl, rfl⟩ := Prod.mk.inj (Option.some.inj hend)
    exact h.owes _ _ hended

theorem finish_ended_ne_none (s : SinkState ι) : s.finish.ended ≠ none := by
  rw [SinkState.finish]
  cases s.ghost.ended <;> simp

/-- **An emitting thread keeps the invariant.** -/
theorem EmitStep.inv [DecidableEq ι] (hstep : EmitStep capacity i s s')
    (h : SinkInv blake3 w file₀ s) : SinkInv blake3 w file₀ s' := by
  cases hstep with
  | accept ev hi hopen hroom halive =>
      refine ⟨?_, h.lost, h.dropped, ?_, ?_, h.done, h.file⟩
      · change s.ghost.sent ++ [ev] = _
        rw [h.sent, List.append_assoc, queued_append]
        rfl
      · rintro (hpast | hclosed | hqueue)
        · exact h.reason (.inl hpast)
        · exact h.reason (.inr (.inl hclosed))
        · exact h.reason (.inr (.inr (by simpa using hqueue)))
      · intro sent₀ lost₀ hend
        have howes := h.owes sent₀ lost₀ hend
        refine ⟨howes.loop.trans ?_, howes.past, howes.lost, howes.settled⟩
        exact (List.prefix_append_right_inj _).mpr due_prefix_append
  | refuse ev hi hopen hfull =>
      exact ⟨h.sent, h.lost, h.dropped, h.reason,
        fun sent₀ lost₀ hend ↦ ⟨(h.owes sent₀ lost₀ hend).loop, (h.owes sent₀ lost₀ hend).past,
          (h.owes sent₀ lost₀ hend).lost, (h.owes sent₀ lost₀ hend).settled⟩, h.done, h.file⟩
  | @count ev hi =>
      refine ⟨h.sent, ?_, ?_, h.reason, ?_, h.done, h.file⟩
      · change s.ghost.lost ++ [ev] = _
        rw [h.lost, List.append_assoc]
        rfl
      · change s.dropped + 1 = (s.ghost.uncounted ++ [ev]).length
        rw [h.dropped, List.length_append, List.length_singleton]
      · intro sent₀ lost₀ hend
        have howes := h.owes sent₀ lost₀ hend
        exact ⟨howes.loop, howes.past, howes.lost.trans (List.prefix_append _ _), howes.settled⟩
  | shutdown hi hopen hroom halive =>
      refine ⟨?_, h.lost, h.dropped, fun _ ↦ finish_ended_ne_none s, ?_, h.done, h.file⟩
      · change s.ghost.sent = _
        rw [h.sent, queued_append]
        simp [queued]
        rfl
      · intro sent₀ lost₀ hend
        have howes := h.owes_finish hend
        refine ⟨howes.loop.trans ?_, howes.past, howes.lost, howes.settled⟩
        exact (List.prefix_append_right_inj _).mpr due_prefix_append

/-- **Dropping the last sink keeps it.** -/
theorem CloseStep.inv (hstep : CloseStep s s') (h : SinkInv blake3 w file₀ s) :
    SinkInv blake3 w file₀ s' := by
  cases hstep with
  | close hidle hopen =>
      refine ⟨h.sent, h.lost, h.dropped, fun _ ↦ finish_ended_ne_none s, ?_, h.done, h.file⟩
      intro sent₀ lost₀ hend
      have howes := h.owes_finish hend
      exact ⟨howes.loop, howes.past, howes.lost, howes.settled⟩

/-! ### The writer -/

theorem events_swap (now : UInt64) (pc : Pc) (s : SinkState ι) :
    events (s.swap now pc).taken = events s.taken := by
  simp only [SinkState.taken, SinkState.swap]
  split <;> simp

/-- After a swap a loss record stands for everything that had been counted. -/
theorem lostOf_swap (now : UInt64) (pc : Pc) (hdropped : s.dropped = s.ghost.uncounted.length) :
    lostOf (s.swap now pc).taken = lostOf s.taken ++ s.ghost.uncounted := by
  simp only [SinkState.taken, SinkState.swap]
  split
  · simp
  · rename_i hzero
    have hnil : s.ghost.uncounted = [] := List.eq_nil_of_length_eq_zero (by omega)
    simp [hnil]

/-- A swap of the counter. -/
theorem SinkInv.swap (h : SinkInv blake3 w file₀ s) (now : UInt64) {pc : Pc} (hdone : pc ≠ .done)
    (hpast : (s.swap now pc).Past → s.Past) : SinkInv blake3 w file₀ (s.swap now pc) where
  sent := by
    rw [events_swap]
    exact h.sent
  lost := by
    rw [lostOf_swap now pc h.dropped]
    change s.ghost.lost = _ ++ []
    rw [List.append_nil]
    exact h.lost
  dropped := rfl
  reason := by
    rintro (hp | hrest)
    · exact h.reason (.inl (hpast hp))
    · exact h.reason (.inr hrest)
  owes := by
    intro sent₀ lost₀ hend
    have howes := h.owes sent₀ lost₀ hend
    refine ⟨?_, fun hp ↦ ?_, howes.lost, fun _ ↦ ?_⟩
    · rw [events_swap]
      exact howes.loop
    · rw [events_swap]
      exact howes.past (hpast hp)
    · rw [lostOf_swap now pc h.dropped, ← h.lost]
      exact howes.lost
  done := fun hpc ↦ absurd hpc hdone
  file := h.file

/-- The receipt of an event. -/
theorem SinkInv.take (h : SinkInv blake3 w file₀ s) {ev : AuditEvent} {queue : List Msg}
    (hqueue : s.queue = .event ev :: queue) {pc : Pc} (hdone : pc ≠ .done)
    (hpast : { s with pc }.Past → s.Past) (hsettled : { s with pc }.Settled → s.Settled) :
    SinkInv blake3 w file₀ { s with queue, pc, batch := s.batch ++ [.event ev] } := by
  have htaken : events { s with queue, pc, batch := s.batch ++ [BatchEntry.event ev] }.taken
      = events s.taken ++ [ev] := by
    simp [SinkState.taken]
  have hlost : lostOf { s with queue, pc, batch := s.batch ++ [BatchEntry.event ev] }.taken
      = lostOf s.taken := by
    simp [SinkState.taken]
  have hloop : ∀ q, events s.taken ++ ev :: q
      = events { s with queue, pc, batch := s.batch ++ [BatchEntry.event ev] }.taken ++ q := by
    intro q
    rw [htaken, List.append_assoc]
    rfl
  refine ⟨?_, ?_, h.dropped, ?_, ?_, fun hpc ↦ absurd hpc hdone, h.file⟩
  · rw [← hloop]
    exact h.sent.trans (by rw [hqueue]; rfl)
  · rw [hlost]
    exact h.lost
  · rintro (hp | hclosed | hmem)
    · exact h.reason (.inl (hpast hp))
    · exact h.reason (.inr (.inl hclosed))
    · exact h.reason (.inr (.inr (by rw [hqueue]; exact List.mem_cons_of_mem _ hmem)))
  · intro sent₀ lost₀ hend
    have howes := h.owes sent₀ lost₀ hend
    refine ⟨?_, fun hp ↦ ?_, howes.lost, fun hs ↦ ?_⟩
    · rw [← hloop]
      exact howes.loop.trans (by rw [hqueue]; exact List.prefix_refl _)
    · rw [htaken]
      exact (howes.past (hpast hp)).trans (List.prefix_append _ _)
    · rw [hlost]
      exact howes.settled (hsettled hs)

/-- The receipt of a request to shut down: nothing behind it is due. -/
theorem SinkInv.takeShutdown (h : SinkInv blake3 w file₀ s) {queue : List Msg}
    (hqueue : s.queue = .shutdown :: queue) {pc : Pc} (stopping : Bool) (hdone : pc ≠ .done)
    (hsettled : { s with pc }.Settled → s.Settled) :
    SinkInv blake3 w file₀ { s with queue, pc, stopping } := by
  have hmem : Msg.shutdown ∈ s.queue := by
    rw [hqueue]
    exact List.mem_cons_self
  refine ⟨?_, h.lost, h.dropped, fun _ ↦ h.reason (.inr (.inr hmem)), ?_,
    fun hpc ↦ absurd hpc hdone, h.file⟩
  · exact h.sent.trans (by rw [hqueue]; rfl)
  · intro sent₀ lost₀ hend
    have howes := h.owes sent₀ lost₀ hend
    have hall : sent₀ <+: events s.taken := by
      have hloop := howes.loop
      rw [hqueue, due, List.append_nil] at hloop
      exact hloop
    exact ⟨hall.trans (List.prefix_append _ _), fun _ ↦ hall, howes.lost,
      fun hs ↦ howes.settled (hsettled hs)⟩

/-- A step that only moves on. -/
theorem SinkInv.move (h : SinkInv blake3 w file₀ s) {pc : Pc} (hdone : pc = .done → s.batch = [])
    (hpast : { s with pc }.Past → s.Past ∨ s.queue = [] ∧ s.closed = true)
    (hsettled : { s with pc }.Settled → s.Settled) :
    SinkInv blake3 w file₀ { s with pc } := by
  refine ⟨h.sent, h.lost, h.dropped, ?_, ?_, hdone, h.file⟩
  · rintro (hp | hrest)
    · rcases hpast hp with hp | ⟨-, hclosed⟩
      · exact h.reason (.inl hp)
      · exact h.reason (.inr (.inl hclosed))
    · exact h.reason (.inr hrest)
  · intro sent₀ lost₀ hend
    have howes := h.owes sent₀ lost₀ hend
    refine ⟨howes.loop, fun hp ↦ ?_, howes.lost, fun hs ↦ howes.settled (hsettled hs)⟩
    rcases hpast hp with hp | ⟨hqueue, -⟩
    · exact howes.past hp
    · have hloop := howes.loop
      rw [hqueue, due, List.append_nil] at hloop
      exact hloop

/-- The writing of a batch. -/
theorem SinkInv.writeOut (h : SinkInv blake3 w file₀ s) {pc : Pc}
    (hpast : { s with pc }.Past → s.Past) (hsettled : { s with pc }.Settled → s.Settled) :
    SinkInv blake3 w file₀ (s.writeOut blake3 w pc) := by
  have htaken : (s.writeOut blake3 w pc).taken = s.taken := by
    simp [SinkState.taken, SinkState.writeOut]
  refine ⟨?_, ?_, h.dropped, ?_, ?_, fun _ ↦ rfl, ?_⟩
  · rw [htaken]
    exact h.sent
  · rw [htaken]
    exact h.lost
  · rintro (hp | hrest)
    · exact h.reason (.inl (hpast hp))
    · exact h.reason (.inr hrest)
  · intro sent₀ lost₀ hend
    have howes := h.owes sent₀ lost₀ hend
    refine ⟨?_, fun hp ↦ ?_, howes.lost, fun hs ↦ ?_⟩
    · rw [htaken]
      exact howes.loop
    · rw [htaken]
      exact howes.past (hpast hp)
    · rw [htaken]
      exact howes.settled (hsettled hs)
  · simp [SinkState.writeOut, h.file, Writer.writeBatches]

/-- Inside the loop the end has been seen only if the loop is stopping. -/
theorem past_of_loop {pc : Pc} (hpc : pc = .receive ∨ pc = .fill ∨ pc = .write)
    (hp : { s with pc }.Past) : s.Past := by
  rcases hp with hstop | hp
  · exact .inl hstop
  · rcases hpc with rfl | rfl | rfl <;> simp at hp

/-- **A step of the writer keeps the invariant.** -/
theorem WriterStep.inv (hstep : WriterStep blake3 w s s') (h : SinkInv blake3 w file₀ s) :
    SinkInv blake3 w file₀ s' := by
  have hunsettled : ∀ pc, pc ≠ .lastWrite → pc ≠ .done → { s with pc }.Settled → s.Settled :=
    fun pc hwrite hdone hs ↦ absurd hs (not_or.mpr ⟨hwrite, hdone⟩)
  cases hstep with
  | swap now hpc => exact h.swap now nofun (past_of_loop (.inl rfl))
  | notEmpty hpc hbatch =>
      exact h.move nofun (fun hp ↦ .inl (past_of_loop (.inr (.inl rfl)) hp))
        (hunsettled _ nofun nofun)
  | blockingRecv hpc hbatch hqueue =>
      exact h.take hqueue nofun (past_of_loop (.inr (.inl rfl))) (hunsettled _ nofun nofun)
  | blockingRecvShutdown hpc hbatch hqueue =>
      exact h.takeShutdown hqueue _ nofun (hunsettled _ nofun nofun)
  | blockingRecvNone hpc hbatch hqueue hclosed =>
      exact h.move nofun (fun _ ↦ .inr ⟨hqueue, hclosed⟩) (hunsettled _ nofun nofun)
  | tryRecv hpc hlen hqueue => exact h.take hqueue (by simp [hpc]) id id
  | tryRecvShutdown hpc hlen hqueue =>
      exact h.takeShutdown hqueue true nofun (hunsettled _ nofun nofun)
  | tryRecvNone hpc hlen hqueue =>
      exact h.move nofun (fun hp ↦ .inl (past_of_loop (.inr (.inr rfl)) hp))
        (hunsettled _ nofun nofun)
  | full hpc hlen =>
      exact h.move nofun (fun hp ↦ .inl (past_of_loop (.inr (.inr rfl)) hp))
        (hunsettled _ nofun nofun)
  | writeBatch hpc =>
      rcases hstop : s.stopping with _ | _
      · refine h.writeOut (fun hp ↦ ?_) (hunsettled _ nofun nofun)
        simp [SinkState.Past, hstop] at hp
      · exact h.writeOut (fun _ ↦ .inl hstop) (hunsettled _ nofun nofun)
  | drain hpc hqueue => exact h.take hqueue (by simp [hpc]) id id
  | drainShutdown hpc hqueue =>
      exact h.takeShutdown hqueue _ nofun (hunsettled _ nofun nofun)
  | drainNone hpc hqueue =>
      exact h.move nofun (fun _ ↦ .inl (.inr (.inl hpc))) (hunsettled _ nofun nofun)
  | lastSwap now hpc => exact h.swap now nofun (fun _ ↦ .inr (.inr (.inl hpc)))
  | lastWrite hpc hbatch =>
      exact h.writeOut (fun _ ↦ .inr (.inr (.inr (.inl hpc)))) (fun _ ↦ .inl hpc)
  | nothingLeft hpc hbatch =>
      exact h.move (fun _ ↦ hbatch) (fun _ ↦ .inl (.inr (.inr (.inr (.inl hpc)))))
        (fun _ ↦ .inl hpc)

/-- **Every run keeps it.** -/
theorem SinkRun.inv [DecidableEq ι] (hrun : SinkRun blake3 w capacity (.start file₀) s) :
    SinkInv blake3 w file₀ s := by
  induction hrun with
  | refl => exact .start
  | tail _ hstep ih =>
      rcases hstep with ⟨i, hstep⟩ | hstep | hstep
      · exact hstep.inv ih
      · exact hstep.inv ih
      · exact hstep.inv ih

end Invariant

/-! ## No silent loss -/

section NoLoss

variable {ι : Type} [DecidableEq ι] {blake3 : Bytes → Bytes32} {w : Writer} {capacity : Nat}
  {file₀ : WriterState} {s : SinkState ι}

end NoLoss

/-! ### A full queue -/

/-- An event. -/
def startedEvent : AuditEvent := .new 1700000000 .lifecycle .ok "system"

/-- The line of a loss record that stands for one event. -/
def lossLine : List Char :=
  Record.line ⟨1, genesis, BatchEntry.toEvent (.loss 1700000000 [startedEvent])⟩

/-- What BLAKE3 says about that line, and about the line of the event after it. -/
def lossBlake3 (bytes : Bytes) : Bytes32 :=
  if bytes = Utf8.encode lossLine then
    { bytes := [0x33, 0x7c, 0xd4, 0x33, 0x0f, 0x24, 0x03, 0xee, 0x91, 0xe5, 0xb2, 0x88, 0x28,
        0x41, 0xbb, 0x2b, 0x6f, 0xb0, 0x0b, 0x98, 0xc0, 0xb0, 0xcd, 0xbe, 0x73, 0xdb, 0xd9, 0xb5,
        0x8b, 0xb1, 0xac, 0x1d]
      length_eq := rfl }
  else
    { bytes := [0x85, 0x69, 0xb4, 0xed, 0x42, 0xa9, 0xf8, 0xba, 0x13, 0x1e, 0xb0, 0x79, 0x57,
        0xeb, 0xfc, 0xc4, 0x66, 0xa3, 0xfe, 0x32, 0x4e, 0xba, 0x30, 0xc0, 0x48, 0x45, 0xea, 0xd0,
        0x5d, 0x5b, 0xb6, 0xaf]
      length_eq := rfl }

/-- An audit directory without files, with the active file opened. -/
def emptyFile : WriterState where
  disk := (Disk.openAppend false active .empty).1
  bytes := 0
  seq := 0
  prev := genesis

end Vaiexia.Audit
