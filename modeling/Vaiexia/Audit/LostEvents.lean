import Vaiexia.Audit.Buffered

/-!
# Events lost to I/O errors

The loop of `FileAuditWriter::run` on a file system where any flush, rotation or write may fail.  An
error leaves `write_batch` and drops the rest of the batch, and `run` only logs it: `batch.clear()`
follows and nothing is added to the counter of dropped events.  What a flush cannot write stays in
the buffer for the next one, and is lost if the last two, at the end of `run` and in the drop of the
`BufWriter`, cannot write it either.

A balance says what becomes of events.  What was accepted into the queue or refused and counted is
in a file, or one of a loss record in a file, or still to come: in the buffer of a writer that runs,
in the batch, in the queue or in the counter (`BufferedSink.Accounted`).  Every step of every thread
keeps the balance but an error in the middle of a batch and an end that leaves something in the
buffer, and what is lost there is missing for good (`accounted_iff`).
-/

namespace Vaiexia.Audit

open Vaiexia.Lib Utf8

/-! ## Calls that lose nothing -/

/-- Nothing that the record of the event needs fails: the rotation, if the file is full, and the
writes. -/
def Writer.Clear (w : Writer) (faults : BufferedFaults) (ev : AuditEvent) (s : BufferedState) :
    Prop :=
  if w.maxBytes ≤ s.bytes then
    (¬ faults.flush.Fails s.out.buf ∧ faults.rotate.close = false ∧ faults.rotate.reopen = false ∧
      (s.out.disk.files active).isSome = true) ∧ ¬ (w.rotateBuffered faults s).1.Refuses faults ev
  else ¬ s.Refuses faults ev

/-- Nothing that the records of a batch need fails.  The flush that ends the batch may. -/
def Writer.ClearBatch (blake3 : Bytes → Bytes32) (w : Writer) : BufferedState →
    List (AuditEvent × BufferedFaults) → Prop
  | _, [] => True
  | s, (ev, faults) :: batch =>
      w.Clear faults ev s ∧ w.ClearBatch blake3 (w.writeEventBuffered blake3 faults s ev).1 batch

section Calls

variable {blake3 : Bytes → Bytes32} {w : Writer} {faults : BufferedFaults} {s : BufferedState}
  {ev : AuditEvent}

theorem rotateIo_ok_iff {faults : EventFaults} {s : WriterState} :
    (w.rotateIo faults s).2 = .ok () ↔
      faults.flush = false ∧ faults.rotate.close = false ∧ faults.rotate.reopen = false ∧
        (s.disk.files active).isSome = true := by
  rw [Writer.rotateIo]
  rcases faults.flush with _ | _
  · rw [if_neg (by decide)]
    rcases rotate_cases w faults.rotate s with
      ⟨hfail, e, he⟩ | ⟨file, hclose, hfile, ⟨hreopen, he⟩ | ⟨hreopen, hok⟩⟩
    · rw [he]
      rcases hfail with hclose | hnone
      · simp [hclose]
      · simp [hnone]
    · simp [he, hreopen]
    · simp [hok, hclose, hreopen, hfile]
  · simp

theorem rotateBuffered_ok_iff :
    (w.rotateBuffered faults s).2 = .ok () ↔
      ¬ faults.flush.Fails s.out.buf ∧ faults.rotate.close = false ∧ faults.rotate.reopen = false ∧
        (s.out.disk.files active).isSome = true := by
  have hthrough := congrArg Prod.snd (rotateBuffered_through w faults s false).1
  dsimp only at hthrough
  rw [hthrough, rotateIo_ok_iff]
  simp [BufferedFaults.seen, BufferedState.through, BufWriter.through]

/-- An event is written exactly when nothing that it needs fails. -/
theorem writeEventBuffered_ok_iff :
    (w.writeEventBuffered blake3 faults s ev).2 = .ok () ↔ w.Clear faults ev s := by
  unfold Writer.writeEventBuffered Writer.Clear
  split
  · rw [← rotateBuffered_ok_iff]
    rcases hrotate : w.rotateBuffered faults s with ⟨s₁, e | ⟨⟩⟩
    · simp
    · simpa using (write_wrote blake3 faults ev s₁).2
  · exact (write_wrote blake3 faults ev s).2

/-- An event that is written has added the bytes of a record. -/
theorem handed_writeEventBuffered (hok : (w.writeEventBuffered blake3 faults s ev).2 = .ok ()) :
    ∃ r : Record, r.event = ev ∧
      (w.writeEventBuffered blake3 faults s ev).1.out.handed = s.out.handed ++ r.bytes := by
  rcases writeEventBuffered_cases blake3 w faults s ev with
    ⟨-, s', e, -, hevent⟩ | ⟨s₁, hopens, hevent⟩
  · rw [hevent] at hok
    cases hok
  · rw [hevent] at hok ⊢
    obtain ⟨⟨p, hp⟩, -⟩ := write_wrote blake3 faults ev s₁
    refine ⟨s₁.through.record ev, rfl, ?_⟩
    rw [hp.handed, (hp.all hok).1, hopens.handed]

/-- And one that is not takes nothing back. -/
theorem prefix_handed_writeEventBuffered (blake3 : Bytes → Bytes32) (w : Writer)
    (faults : BufferedFaults) (s : BufferedState) (ev : AuditEvent) :
    s.out.handed <+: (w.writeEventBuffered blake3 faults s ev).1.out.handed := by
  rcases writeEventBuffered_cases blake3 w faults s ev with
    ⟨-, s', e, hrotate, hevent⟩ | ⟨s₁, hopens, hevent⟩
  · have hhanded := (rotateBuffered_through w faults s false).2
    rw [hrotate] at hhanded
    rw [hevent, ← hhanded]
  · obtain ⟨⟨p, hp⟩, -⟩ := write_wrote blake3 faults ev s₁
    rw [hevent, hp.handed, hopens.handed]
    exact List.prefix_append _ _

end Calls

/-! ## The entries of a batch that are taken -/

/-- The events of a batch. -/
def toWrite (batch : List (BatchEntry × BufferedFaults)) : List (AuditEvent × BufferedFaults) :=
  batch.map fun x ↦ (x.1.toEvent, x.2)

/-- The entries of a batch whose records are taken, each with the number of bytes that have been
taken then. -/
def Writer.batchTaken (blake3 : Bytes → Bytes32) (w : Writer) : BufferedState →
    List (BatchEntry × BufferedFaults) → List (BatchEntry × Nat)
  | _, [] => []
  | s, (entry, faults) :: batch =>
      match w.writeEventBuffered blake3 faults s entry.toEvent with
      | (_, .error _) => []
      | (s, .ok ()) => (entry, s.out.handed.length) :: w.batchTaken blake3 s batch

/-- The record of an entry, which ends where the entry says, is among the bytes that were taken. -/
def Marked (x : BatchEntry × Nat) (taken : Bytes) : Prop :=
  ∃ (r : Record) (before : Bytes), r.event = x.1.toEvent ∧ (before ++ r.bytes).length = x.2 ∧
    before ++ r.bytes <+: taken

/-- The last entry ends where the bytes end. -/
def Tight (taken : List (BatchEntry × Nat)) (handed : Bytes) : Prop :=
  (taken.getLast?.map Prod.snd).getD 0 = handed.length

section Taken

variable {blake3 : Bytes → Bytes32} {w : Writer} {s : BufferedState} {last : WriteFault}
  {batch : List (BatchEntry × BufferedFaults)}

theorem Marked.mono {x : BatchEntry × Nat} {taken taken' : Bytes} (h : Marked x taken)
    (hpart : taken <+: taken') : Marked x taken' := by
  obtain ⟨r, before, hev, hlen, hmem⟩ := h
  exact ⟨r, before, hev, hlen, hmem.trans hpart⟩

theorem Marked.le {x : BatchEntry × Nat} {taken : Bytes} (h : Marked x taken) :
    x.2 ≤ taken.length := by
  obtain ⟨r, before, -, hlen, hmem⟩ := h
  rw [← hlen]
  exact hmem.length_le

/-- What ends within a first part is in it. -/
theorem Marked.of_le {x : BatchEntry × Nat} {part rest : Bytes} (h : Marked x (part ++ rest))
    (hle : x.2 ≤ part.length) : Marked x part := by
  obtain ⟨r, before, hev, hlen, hmem⟩ := h
  refine ⟨r, before, hev, hlen, ?_⟩
  exact List.prefix_of_prefix_length_le hmem (List.prefix_append part rest) (by omega)

/-- What a batch takes are its first entries, and all of them exactly when nothing fails. -/
theorem batchTaken_spec (blake3 : Bytes → Bytes32) (w : Writer) (s : BufferedState)
    (batch : List (BatchEntry × BufferedFaults)) :
    ∃ n ≤ batch.length, (w.batchTaken blake3 s batch).map Prod.fst = (batch.take n).map Prod.fst ∧
      (n = batch.length ↔ w.ClearBatch blake3 s (toWrite batch)) := by
  induction batch generalizing s with
  | nil => exact ⟨0, Nat.le_refl 0, rfl, by simp [toWrite, Writer.ClearBatch]⟩
  | cons x batch ih =>
      obtain ⟨entry, faults⟩ := x
      have hclear := @writeEventBuffered_ok_iff blake3 w faults s entry.toEvent
      rw [toWrite, List.map_cons, Writer.ClearBatch, Writer.batchTaken, List.length_cons]
      rcases hres : w.writeEventBuffered blake3 faults s entry.toEvent with ⟨s', e | ⟨⟩⟩
      · rw [hres] at hclear
        exact ⟨0, Nat.zero_le _, rfl, by simp [← hclear]⟩
      · rw [hres] at hclear
        obtain ⟨n, hn, htaken, hall⟩ := ih s'
        refine ⟨n + 1, by omega, ?_, ?_⟩
        · rw [List.map_cons, htaken, List.take_succ_cons, List.map_cons]
        · rw [← toWrite, ← hall]
          simp [← hclear]

/-- **A batch** keeps the records of the entries that were taken, and adds those that it takes. -/
theorem marked_batchTaken {taken : List (BatchEntry × Nat)}
    (h : ∀ x ∈ taken, Marked x s.out.handed) :
    ∀ x ∈ taken ++ w.batchTaken blake3 s batch,
      Marked x (w.writeBatchBuffered blake3 last s (toWrite batch)).1.out.handed := by
  induction batch generalizing s taken with
  | nil =>
      simp only [Writer.batchTaken, List.append_nil, toWrite, List.map_nil,
        Writer.writeBatchBuffered, BufWriter.handed_flush]
      exact h
  | cons x batch ih =>
      obtain ⟨entry, faults⟩ := x
      have hpart := prefix_handed_writeEventBuffered blake3 w faults s entry.toEvent
      have hrecord := @handed_writeEventBuffered blake3 w faults s entry.toEvent
      rw [toWrite, List.map_cons, Writer.writeBatchBuffered, Writer.batchTaken]
      rcases hres : w.writeEventBuffered blake3 faults s entry.toEvent with ⟨s', e | ⟨⟩⟩
      · rw [hres] at hpart
        simpa using fun e n hx ↦ (h (e, n) hx).mono hpart
      · rw [hres] at hpart hrecord
        obtain ⟨r, hev, hhanded⟩ := hrecord rfl
        have hnew : ∀ x ∈ taken ++ [(entry, s'.out.handed.length)], Marked x s'.out.handed := by
          intro x hx
          rcases List.mem_append.mp hx with hx | hx
          · exact (h x hx).mono hpart
          · obtain rfl := List.mem_singleton.mp hx
            exact ⟨r, s.out.handed, hev, by rw [hhanded], by rw [hhanded]⟩
        have hrest := ih hnew
        rw [List.append_assoc] at hrest
        exact hrest

/-- A batch in which nothing fails adds whole records only. -/
theorem tight_batchTaken {taken : List (BatchEntry × Nat)} (h : Tight taken s.out.handed)
    (hclear : w.ClearBatch blake3 s (toWrite batch)) :
    Tight (taken ++ w.batchTaken blake3 s batch)
      (w.writeBatchBuffered blake3 last s (toWrite batch)).1.out.handed := by
  induction batch generalizing s taken with
  | nil =>
      simp only [Writer.batchTaken, List.append_nil, toWrite, List.map_nil,
        Writer.writeBatchBuffered, BufWriter.handed_flush]
      exact h
  | cons x batch ih =>
      obtain ⟨entry, faults⟩ := x
      obtain ⟨hevent, hbatch⟩ := hclear
      have hok := (@writeEventBuffered_ok_iff blake3 w faults s entry.toEvent).mpr hevent
      rw [toWrite, List.map_cons, Writer.writeBatchBuffered, Writer.batchTaken]
      rcases hres : w.writeEventBuffered blake3 faults s entry.toEvent with ⟨s', e | ⟨⟩⟩
      · rw [hres] at hok
        cases hok
      · rw [hres] at hbatch
        have hlast : Tight (taken ++ [(entry, s'.out.handed.length)]) s'.out.handed := by
          simp [Tight]
        have hrest := ih hlast hbatch
        rw [List.append_assoc] at hrest
        exact hrest

end Taken

/-! ## The end of the writer -/

section Finish

variable {s : BufferedState} {flush drop : WriteFault}

@[simp] theorem handed_finish (flush drop : WriteFault) (s : BufferedState) :
    (s.finish flush drop).out.handed = s.out.handed := by
  simp [BufferedState.finish]

/-- The end leaves nothing in the buffer exactly if one of its two flushes works. -/
theorem buf_finish_iff : (s.finish flush drop).out.buf = [] ↔
    ¬ flush.Fails s.out.buf ∨ ¬ drop.Fails (s.out.flush flush).1.buf := by
  rw [BufferedState.finish, BufWriter.buf_flush, List.drop_eq_nil_iff, ← Nat.not_lt]
  change ¬ drop.Fails _ ↔ _
  refine ⟨.inr, fun h ↦ ?_⟩
  rcases h with hflush | hdrop
  · rw [BufWriter.buf_flush_of_not_fails hflush]
    exact drop.not_fails_nil
  · exact hdrop

end Finish

/-! ## The loop -/

/-- What the writer does with its file: a call of `write_batch`, with what fails for each entry, or
the end of `run`, with what its two flushes come to; and the state before. -/
inductive FileCall where
  | writeBatch (writer : BufferedState) (batch : List (BatchEntry × BufferedFaults))
  | finish (writer : BufferedState) (flush drop : WriteFault)

/-- No call of `write_batch` fails before its last flush. -/
def FileCall.ClearWrite (blake3 : Bytes → Bytes32) (w : Writer) : FileCall → Prop
  | writeBatch writer batch => w.ClearBatch blake3 writer (toWrite batch)
  | finish .. => True

/-- At the end one of the flushes works. -/
def FileCall.ClearEnd : FileCall → Prop
  | writeBatch .. => True
  | finish writer flush drop =>
      ¬ flush.Fails writer.out.buf ∨ ¬ drop.Fails (writer.out.flush flush).1.buf

/-- The call loses nothing. -/
def FileCall.Clear (blake3 : Bytes → Bytes32) (w : Writer) (call : FileCall) : Prop :=
  call.ClearWrite blake3 w ∧ call.ClearEnd

/-- The sink, with the writer behind its buffer, and the entries whose records it has taken. -/
structure BufferedSink (ι : Type) where
  sink : SinkState ι
  writer : BufferedState
  taken : List (BatchEntry × Nat)

namespace BufferedSink

variable {ι : Type}

/-- A sink whose writer has opened this file. -/
def start (file : WriterState) : BufferedSink ι where
  sink := .start file
  writer := file.buffered
  taken := []

/-- `write_batch`, the warning and `batch.clear()`. -/
def writeOut (blake3 : Bytes → Bytes32) (w : Writer) (pc : Pc) (last : WriteFault)
    (batch : List (BatchEntry × BufferedFaults)) (s : BufferedSink ι) : BufferedSink ι :=
  let taken := w.batchTaken blake3 s.writer batch
  let writer := (w.writeBatchBuffered blake3 last s.writer (toWrite batch)).1
  { sink := { s.sink with
      pc := pc
      file := writer.through
      batch := []
      out := s.sink.out ++ [taken.map Prod.fst] }
    writer := writer
    taken := s.taken ++ taken }

/-- The end of `run`. -/
def finish (flush drop : WriteFault) (s : BufferedSink ι) : BufferedSink ι where
  sink := { s.sink with pc := .done }
  writer := s.writer.finish flush drop
  taken := s.taken

end BufferedSink

section Steps

variable {ι : Type} (blake3 : Bytes → Bytes32) (w : Writer) (capacity : Nat)

/-- A step of anybody, with what the writer does with its file. -/
inductive BufferedStep [DecidableEq ι] :
    List FileCall → BufferedSink ι → BufferedSink ι → Prop
  | emit {s : BufferedSink ι} {sink : SinkState ι} (i : ι)
      (hstep : EmitStep capacity i s.sink sink) : BufferedStep [] s { s with sink }
  | close {s : BufferedSink ι} {sink : SinkState ι} (hstep : CloseStep s.sink sink) :
      BufferedStep [] s { s with sink }
  /-- A step of the writer that does not touch the file. -/
  | writer {s : BufferedSink ι} {sink : SinkState ι} (hstep : WriterStep blake3 w s.sink sink)
      (hout : sink.out = s.sink.out) (hpc : sink.pc ≠ .done) : BufferedStep [] s { s with sink }
  | writeBatch {s : BufferedSink ι} {batch : List (BatchEntry × BufferedFaults)}
      (last : WriteFault) (hpc : s.sink.pc = .write) (hbatch : batch.map Prod.fst = s.sink.batch) :
      BufferedStep [.writeBatch s.writer batch] s
        (s.writeOut blake3 w (if s.sink.stopping then .drain else .top) last batch)
  | lastWrite {s : BufferedSink ι} {batch : List (BatchEntry × BufferedFaults)}
      (last flush drop : WriteFault) (hpc : s.sink.pc = .lastWrite) (hne : s.sink.batch ≠ [])
      (hbatch : batch.map Prod.fst = s.sink.batch) :
      BufferedStep [.writeBatch s.writer batch,
          .finish (s.writeOut blake3 w .lastWrite last batch).writer flush drop] s
        ((s.writeOut blake3 w .lastWrite last batch).finish flush drop)
  | nothingLeft {s : BufferedSink ι} (flush drop : WriteFault) (hpc : s.sink.pc = .lastWrite)
      (hbatch : s.sink.batch = []) :
      BufferedStep [.finish s.writer flush drop] s (s.finish flush drop)

/-- Any interleaving, with what the writer does with its file. -/
inductive BufferedRun [DecidableEq ι] :
    BufferedSink ι → List FileCall → BufferedSink ι → Prop
  | refl {s : BufferedSink ι} : BufferedRun s [] s
  | tail {s₀ s s' : BufferedSink ι} {calls new : List FileCall} (hrun : BufferedRun s₀ calls s)
      (hstep : BufferedStep blake3 w capacity new s s') : BufferedRun s₀ (calls ++ new) s'

end Steps

/-! ## The balance -/

/-- For how many events these entries stand. -/
def weight (entries : List BatchEntry) : Nat := (events entries).length + (lostOf entries).length

@[simp] theorem weight_nil : weight [] = 0 := rfl

@[simp] theorem weight_append (es es' : List BatchEntry) :
    weight (es ++ es') = weight es + weight es' := by
  simp only [weight, events_append, lostOf_append, List.length_append]
  omega

@[simp] theorem weight_event (ev : AuditEvent) : weight [.event ev] = 1 := rfl

@[simp] theorem weight_loss (now : UInt64) (lost : List AuditEvent) :
    weight [.loss now lost] = lost.length := by
  simp [weight]

/-- Entries of which each stands for an event stand for none only if there are none. -/
theorem weight_eq_zero {es : List BatchEntry} (h : ∀ e ∈ es, 0 < weight [e]) :
    weight es = 0 ↔ es = [] := by
  constructor
  · intro hzero
    cases es with
    | nil => rfl
    | cons e es =>
        have he := h e List.mem_cons_self
        rw [← List.singleton_append, weight_append] at hzero
        omega
  · rintro rfl
    rfl

namespace SinkState

variable {ι : Type}

/-- The events that were accepted, and those that were refused and counted. -/
def emitted (s : SinkState ι) : Nat := s.ghost.sent.length + s.ghost.lost.length

/-- The events that were taken from the batch, or that a loss record stands for which was, and those
that are still to come. -/
def total (s : SinkState ι) : Nat :=
  weight s.out.flatten + weight s.batch + (queued s.queue).length + s.dropped

end SinkState

namespace BufferedSink

variable {ι : Type}

/-- The entries whose records are in a file. -/
def inFile (s : BufferedSink ι) : List BatchEntry :=
  (s.taken.filter fun x ↦ decide (x.2 ≤ s.writer.out.sent.length)).map Prod.fst

/-- The entries of whose records something is still in the buffer. -/
def inBuffer (s : BufferedSink ι) : List BatchEntry :=
  (s.taken.filter fun x ↦ !decide (x.2 ≤ s.writer.out.sent.length)).map Prod.fst

/-- The events that are in a file, or that a loss record in a file stands for, and those that are
still to come.  Once the writer has ended the buffer is gone. -/
def total (s : BufferedSink ι) : Nat :=
  weight s.inFile + (if s.sink.pc = .done then 0 else weight s.inBuffer) + weight s.sink.batch +
    (queued s.sink.queue).length + s.sink.dropped

/-- No event is missing. -/
def Accounted (s : BufferedSink ι) : Prop := s.sink.emitted = s.total

end BufferedSink

/-- What the balance rests on. -/
structure Counting {ι : Type} (s : SinkState ι) : Prop where
  dropped : s.dropped = s.ghost.uncounted.length
  batch : ∀ e ∈ s.batch, 0 < weight [e]

/-- A step that loses nothing. -/
structure Keeping {ι : Type} (s s' : SinkState ι) : Prop where
  counting : Counting s'
  balance : s'.emitted + s.total = s.emitted + s'.total

section Balance

variable {ι : Type} {blake3 : Bytes → Bytes32} {w : Writer} {capacity : Nat}
  {file₀ : WriterState} {s s' : SinkState ι} {i : ι}

theorem EmitStep.keeping [DecidableEq ι] (hstep : EmitStep capacity i s s') (h : Counting s) :
    Keeping s s' := by
  cases hstep with
  | accept ev =>
      refine ⟨⟨h.dropped, h.batch⟩, ?_⟩
      simp only [SinkState.emitted, SinkState.total, queued_append, List.length_append]
      simp only [queued, List.length_cons, List.length_nil]
      omega
  | refuse ev => exact ⟨⟨h.dropped, h.batch⟩, rfl⟩
  | count =>
      refine ⟨⟨by simp [h.dropped], h.batch⟩, ?_⟩
      simp only [SinkState.emitted, SinkState.total, List.length_append, List.length_cons,
        List.length_nil]
      omega
  | shutdown =>
      refine ⟨⟨h.dropped, h.batch⟩, ?_⟩
      simp only [SinkState.emitted, SinkState.total, queued_append, SinkState.finish, queued,
        List.append_nil]

theorem CloseStep.keeping (hstep : CloseStep s s') (h : Counting s) : Keeping s s' := by
  cases hstep
  exact ⟨⟨h.dropped, h.batch⟩, rfl⟩

/-- A swap turns the counter into a loss record that stands for as many. -/
theorem keeping_swap (now : UInt64) (pc : Pc) (h : Counting s) : Keeping s (s.swap now pc) := by
  have hbatch : weight (s.swap now pc).batch = weight s.batch + s.dropped := by
    rw [SinkState.swap]
    split
    · simp [h.dropped]
    · simp only
      omega
  refine ⟨⟨rfl, ?_⟩, ?_⟩
  · intro e he
    rw [SinkState.swap] at he
    split at he
    · rename_i hpos
      rcases List.mem_append.mp he with he | he
      · exact h.batch e he
      · rw [List.mem_singleton.mp he, weight_loss, ← h.dropped]
        exact hpos
    · exact h.batch e he
  · simp only [SinkState.emitted, SinkState.total, hbatch]
    simp only [SinkState.swap]
    omega

/-- The receipt of an event. -/
theorem keeping_take (h : Counting s) {ev : AuditEvent} {queue : List Msg}
    (hqueue : s.queue = .event ev :: queue) (pc : Pc) :
    Keeping s { s with queue, pc, batch := s.batch ++ [.event ev] } := by
  refine ⟨⟨h.dropped, ?_⟩, ?_⟩
  · intro e he
    rcases List.mem_append.mp he with he | he
    · exact h.batch e he
    · rw [List.mem_singleton.mp he, weight_event]
      exact Nat.one_pos
  · simp only [SinkState.emitted, SinkState.total, hqueue, queued, weight_append, weight_event,
      List.length_cons]
    omega

/-- The receipt of a request to shut down. -/
theorem keeping_takeShutdown (h : Counting s) {queue : List Msg}
    (hqueue : s.queue = .shutdown :: queue) (pc : Pc) (stopping : Bool) :
    Keeping s { s with queue, pc, stopping } := by
  refine ⟨⟨h.dropped, h.batch⟩, ?_⟩
  simp only [SinkState.emitted, SinkState.total, hqueue, queued]

/-- **A step of the writer that writes nothing** loses nothing. -/
theorem WriterStep.keeping (hstep : WriterStep blake3 w s s') (hout : s'.out = s.out)
    (h : Counting s) : Keeping s s' := by
  have hmove : ∀ pc, Keeping s { s with pc } := fun pc ↦ ⟨⟨h.dropped, h.batch⟩, rfl⟩
  have hwrites : ∀ pc, (s.writeOut blake3 w pc).out ≠ s.out := by simp [SinkState.writeOut]
  cases hstep with
  | swap now => exact keeping_swap now _ h
  | notEmpty => exact hmove _
  | blockingRecv _ _ hqueue => exact keeping_take h hqueue _
  | blockingRecvShutdown _ _ hqueue => exact keeping_takeShutdown h hqueue _ _
  | blockingRecvNone => exact hmove _
  | tryRecv _ _ hqueue => exact keeping_take h hqueue _
  | tryRecvShutdown _ _ hqueue => exact keeping_takeShutdown h hqueue _ _
  | tryRecvNone => exact hmove _
  | full => exact hmove _
  | writeBatch => exact absurd hout (hwrites _)
  | drain _ hqueue => exact keeping_take h hqueue _
  | drainShutdown _ hqueue => exact keeping_takeShutdown h hqueue _ _
  | drainNone => exact hmove _
  | lastSwap now => exact keeping_swap now _ h
  | lastWrite => exact absurd hout (hwrites _)
  | nothingLeft => exact hmove _

/-- **A call of `write_batch`** loses the entries that it does not take: none exactly when nothing
that their records need fails. -/
theorem writeOut_balance {s : BufferedSink ι} (h : Counting s.sink)
    {batch : List (BatchEntry × BufferedFaults)} (hbatch : batch.map Prod.fst = s.sink.batch)
    (pc : Pc) (last : WriteFault) :
    Counting (s.writeOut blake3 w pc last batch).sink ∧
      ∃ missing, s.sink.total = (s.writeOut blake3 w pc last batch).sink.total + missing ∧
        (missing = 0 ↔ w.ClearBatch blake3 s.writer (toWrite batch)) := by
  refine ⟨⟨h.dropped, by simp [BufferedSink.writeOut]⟩, ?_⟩
  obtain ⟨n, hle, htaken, hall⟩ := batchTaken_spec blake3 w s.writer batch
  have hlen : batch.length = s.sink.batch.length := by rw [← hbatch, List.length_map]
  rw [hlen] at hle hall
  rw [List.map_take, hbatch] at htaken
  refine ⟨weight (s.sink.batch.drop n), ?_, ?_⟩
  · have hsplit : weight s.sink.batch
        = weight (s.sink.batch.take n) + weight (s.sink.batch.drop n) := by
      rw [← weight_append, List.take_append_drop]
    have hout : (s.writeOut blake3 w pc last batch).sink.out
        = s.sink.out ++ [s.sink.batch.take n] := by
      rw [← htaken]
      rfl
    simp only [SinkState.total, hout, List.flatten_append, weight_append, hsplit]
    simp only [BufferedSink.writeOut, List.flatten_cons, List.flatten_nil, List.append_nil,
      weight_nil]
    omega
  · rw [weight_eq_zero fun e he ↦ h.batch e (List.mem_of_mem_drop he), List.drop_eq_nil_iff]
    refine Iff.trans ?_ hall
    omega

/-! ### Runs -/

/-- What holds after a run that made these calls. -/
structure Balanced (blake3 : Bytes → Bytes32) (w : Writer) (calls : List FileCall)
    (s : BufferedSink ι) : Prop where
  counting : Counting s.sink
  out : s.sink.out.flatten = s.taken.map Prod.fst
  weights : ∀ x ∈ s.taken, 0 < weight [x.1]
  marked : ∀ x ∈ s.taken, Marked x s.writer.out.handed
  tight : (∀ call ∈ calls, call.ClearWrite blake3 w) → Tight s.taken s.writer.out.handed
  missing : ∃ missing, s.sink.emitted = s.sink.total + missing ∧
    (missing = 0 ↔ ∀ call ∈ calls, call.ClearWrite blake3 w)
  ended : (∀ call ∈ calls, call.ClearEnd) ↔ (s.sink.pc = .done → s.writer.out.buf = [])

/-- Before the end of `run` nothing has ended. -/
def Going (calls : List FileCall) (s : BufferedSink ι) : Prop :=
  s.sink.pc ≠ .done ∧ ∀ call ∈ calls, call.ClearEnd

section Runs

variable {calls : List FileCall} {s : BufferedSink ι}

/-- A step that does not touch the file. -/
theorem Balanced.quiet (h : Balanced blake3 w calls s) {sink : SinkState ι}
    (hkeeping : Keeping s.sink sink) (hout : sink.out = s.sink.out)
    (hpc : sink.pc = .done ↔ s.sink.pc = .done) :
    Balanced blake3 w (calls ++ []) { s with sink } := by
  obtain ⟨missing, hmissing, hclear⟩ := h.missing
  have hbalance := hkeeping.balance
  rw [List.append_nil]
  refine ⟨hkeeping.counting, ?_, h.weights, h.marked, h.tight, ⟨missing, ?_, hclear⟩, ?_⟩
  · rw [← h.out]
    exact congrArg List.flatten hout
  · dsimp only
    omega
  · rw [h.ended]
    dsimp only
    rw [hpc]

/-- **A call of `write_batch`.** -/
theorem Balanced.writeOut (h : Balanced blake3 w calls s) (hgoing : Going calls s) {pc : Pc}
    (hpc : pc ≠ .done) (last : WriteFault) {batch : List (BatchEntry × BufferedFaults)}
    (hbatch : batch.map Prod.fst = s.sink.batch) :
    Balanced blake3 w (calls ++ [.writeBatch s.writer batch]) (s.writeOut blake3 w pc last batch) ∧
      Going (calls ++ [.writeBatch s.writer batch]) (s.writeOut blake3 w pc last batch) := by
  obtain ⟨missing, hmissing, hclear⟩ := h.missing
  obtain ⟨hcounting, more, hmore, hclear'⟩ :=
    @writeOut_balance ι blake3 w s h.counting batch hbatch pc last
  obtain ⟨n, -, htaken, -⟩ := batchTaken_spec blake3 w s.writer batch
  rw [List.map_take, hbatch] at htaken
  have hends : ∀ call ∈ calls ++ [FileCall.writeBatch s.writer batch], call.ClearEnd := by
    rw [List.forall_mem_append, List.forall_mem_singleton]
    exact ⟨hgoing.2, trivial⟩
  have hwrites : (∀ call ∈ calls ++ [FileCall.writeBatch s.writer batch],
      call.ClearWrite blake3 w) ↔ (∀ call ∈ calls, call.ClearWrite blake3 w) ∧
        w.ClearBatch blake3 s.writer (toWrite batch) := by
    rw [List.forall_mem_append, List.forall_mem_singleton]
    exact Iff.rfl
  refine ⟨⟨hcounting, ?_, ?_, marked_batchTaken h.marked, ?_, ⟨missing + more, ?_, ?_⟩, ?_⟩,
    hpc, hends⟩
  · simp [BufferedSink.writeOut, h.out]
  · intro x hx
    rcases List.mem_append.mp hx with hx | hx
    · exact h.weights x hx
    · have hmem := List.mem_map_of_mem (f := Prod.fst) hx
      rw [htaken] at hmem
      exact h.counting.batch x.1 (List.mem_of_mem_take hmem)
  · intro hall
    obtain ⟨hbefore, hnow⟩ := hwrites.mp hall
    exact tight_batchTaken (h.tight hbefore) hnow
  · have hemitted : (s.writeOut blake3 w pc last batch).sink.emitted = s.sink.emitted := rfl
    omega
  · rw [hwrites, ← hclear, ← hclear']
    omega
  · exact iff_of_true hends fun hdone ↦ absurd hdone hpc

/-- **The end of `run`.** -/
theorem Balanced.finish (h : Balanced blake3 w calls s) (hgoing : Going calls s)
    (flush drop : WriteFault) :
    Balanced blake3 w (calls ++ [.finish s.writer flush drop]) (s.finish flush drop) := by
  obtain ⟨missing, hmissing, hclear⟩ := h.missing
  have hwrites : (∀ call ∈ calls ++ [FileCall.finish s.writer flush drop],
      call.ClearWrite blake3 w) ↔ ∀ call ∈ calls, call.ClearWrite blake3 w := by
    rw [List.forall_mem_append, List.forall_mem_singleton]
    exact and_iff_left trivial
  have hhanded : (s.finish flush drop).writer.out.handed = s.writer.out.handed :=
    handed_finish flush drop s.writer
  refine ⟨⟨h.counting.dropped, h.counting.batch⟩, h.out, h.weights, ?_, ?_,
    ⟨missing, hmissing, hclear.trans hwrites.symm⟩, ?_⟩
  · rw [hhanded]
    exact h.marked
  · rw [hhanded]
    exact fun hall ↦ h.tight (hwrites.mp hall)
  · rw [List.forall_mem_append, List.forall_mem_singleton, and_iff_right hgoing.2]
    refine buf_finish_iff.symm.trans ?_
    simp [BufferedSink.finish]

/-- Before the end no call ends anything. -/
theorem Balanced.going (h : Balanced blake3 w calls s) (hpc : s.sink.pc ≠ .done) :
    Going calls s := ⟨hpc, h.ended.mpr fun hdone ↦ absurd hdone hpc⟩

/-- Who emits does nothing to the loop. -/
theorem EmitStep.loop_eq [DecidableEq ι] {s s' : SinkState ι} {i : ι}
    (hstep : EmitStep capacity i s s') : s'.out = s.out ∧ s'.pc = s.pc := by
  cases hstep <;> exact ⟨rfl, rfl⟩

/-- Nor does the writer take a step once it is done. -/
theorem WriterStep.pc_ne {s s' : SinkState ι} (hstep : WriterStep blake3 w s s') :
    s.pc ≠ .done := by
  cases hstep <;> simp [*]

/-- **One step.** -/
theorem BufferedStep.balanced [DecidableEq ι] {new : List FileCall} {s' : BufferedSink ι}
    (hstep : BufferedStep blake3 w capacity new s s') (h : Balanced blake3 w calls s) :
    Balanced blake3 w (calls ++ new) s' := by
  cases hstep with
  | emit i hstep =>
      obtain ⟨hout, hpc⟩ := hstep.loop_eq
      exact h.quiet (hstep.keeping h.counting) hout (by rw [hpc])
  | close hstep =>
      have hkeeping := hstep.keeping h.counting
      cases hstep
      exact h.quiet hkeeping rfl Iff.rfl
  | writer hstep hout hpc =>
      exact h.quiet (hstep.keeping hout h.counting) hout (iff_of_false hpc hstep.pc_ne)
  | writeBatch last hpc hbatch =>
      have hgoing := h.going (by rw [hpc]; decide)
      refine (h.writeOut hgoing ?_ last hbatch).1
      split <;> decide
  | lastWrite last flush drop hpc hne hbatch =>
      have hgoing := h.going (by rw [hpc]; decide)
      obtain ⟨hwritten, hgoing'⟩ :=
        h.writeOut hgoing (show Pc.lastWrite ≠ .done by decide) last hbatch
      have hfinished := hwritten.finish hgoing' flush drop
      rw [List.append_assoc] at hfinished
      exact hfinished
  | nothingLeft flush drop hpc hbatch =>
      exact h.finish (h.going (by rw [hpc]; decide)) flush drop

theorem balanced_start : Balanced blake3 w [] (.start file₀ : BufferedSink ι) where
  counting := { dropped := rfl, batch := List.forall_mem_nil _ }
  out := rfl
  weights := List.forall_mem_nil _
  marked := List.forall_mem_nil _
  tight _ := rfl
  missing := ⟨0, rfl, by simp⟩
  ended := by simp [BufferedSink.start, SinkState.start]

/-- **Every run.** -/
theorem BufferedRun.balanced [DecidableEq ι] {s₀ : BufferedSink ι}
    (hrun : BufferedRun blake3 w capacity s₀ calls s) (h : Balanced blake3 w [] s₀) :
    Balanced blake3 w calls s := by
  induction hrun with
  | refl => exact h
  | tail _ hstep ih => exact hstep.balanced ih

end Runs

/-- Entries are in a file or in the buffer. -/
theorem weight_inFile_add (s : BufferedSink ι) :
    weight s.inFile + weight s.inBuffer = weight (s.taken.map Prod.fst) := by
  rw [BufferedSink.inFile, BufferedSink.inBuffer]
  induction s.taken with
  | nil => rfl
  | cons x taken ih =>
      have hcons : ∀ es, weight (x.1 :: es) = weight [x.1] + weight es := fun es ↦
        weight_append [x.1] es
      rw [List.map_cons, hcons, ← ih]
      by_cases hx : x.2 ≤ s.writer.out.sent.length
      · rw [List.filter_cons_of_pos (by simpa using hx),
          List.filter_cons_of_neg (by simpa using hx), List.map_cons, hcons, Nat.add_assoc]
      · rw [List.filter_cons_of_neg (by simpa using hx),
          List.filter_cons_of_pos (by simpa using hx), List.map_cons, hcons, Nat.add_left_comm]

section Runs

variable {calls : List FileCall} {s : BufferedSink ι}

/-- While no batch fails, an empty buffer is one that holds nothing of a record. -/
theorem Balanced.inBuffer_eq_nil_iff (h : Balanced blake3 w calls s)
    (hclear : ∀ call ∈ calls, call.ClearWrite blake3 w) :
    s.inBuffer = [] ↔ s.writer.out.buf = [] := by
  have hhanded : s.writer.out.handed.length = s.writer.out.sent.length + s.writer.out.buf.length :=
    List.length_append
  rw [BufferedSink.inBuffer, List.map_eq_nil_iff, List.filter_eq_nil_iff]
  constructor
  · intro hnone
    by_contra hbuf
    have hpos := List.length_pos_iff.mpr hbuf
    -- the last record ends in the buffer
    have htight := h.tight hclear
    rcases hlast : s.taken.getLast? with - | x
    · simp [Tight, hlast] at htight
      omega
    · have hx : x.2 = s.writer.out.handed.length := by simpa [Tight, hlast] using htight
      have hle := hnone x (List.mem_of_getLast? hlast)
      simp only [Bool.not_eq_true', decide_eq_false_iff_not, not_not] at hle
      omega
  · intro hbuf x hx
    have hle := (h.marked x hx).le
    rw [hhanded, hbuf, List.length_nil] at hle
    simpa using hle

/-- No event is missing exactly when no call has lost anything. -/
theorem Balanced.accounted (h : Balanced blake3 w calls s) :
    s.Accounted ↔ ∀ call ∈ calls, call.Clear blake3 w := by
  obtain ⟨missing, hmissing, hclear⟩ := h.missing
  have hsplit := weight_inFile_add s
  have hall : (∀ call ∈ calls, call.Clear blake3 w) ↔ (∀ call ∈ calls, call.ClearWrite blake3 w) ∧
      ∀ call ∈ calls, call.ClearEnd := by
    simp only [FileCall.Clear, imp_and, forall_and]
  have hpositive : weight s.inBuffer = 0 ↔ s.inBuffer = [] := by
    refine weight_eq_zero fun e he ↦ ?_
    obtain ⟨x, hx, rfl⟩ := List.mem_map.mp he
    exact h.weights x (List.mem_of_mem_filter hx)
  rw [SinkState.total, h.out] at hmissing
  rw [hall, ← hclear, h.ended, BufferedSink.Accounted, BufferedSink.total]
  by_cases hdone : s.sink.pc = .done
  · rw [if_pos hdone]
    simp only [hdone, true_implies]
    constructor
    · intro haccounted
      have hzero : missing = 0 := by omega
      refine ⟨hzero, (h.inBuffer_eq_nil_iff (hclear.mp hzero)).mp (hpositive.mp ?_)⟩
      omega
    · rintro ⟨hzero, hbuf⟩
      have hnone := hpositive.mpr ((h.inBuffer_eq_nil_iff (hclear.mp hzero)).mpr hbuf)
      omega
  · rw [if_neg hdone]
    simp only [hdone, false_implies, and_true]
    omega

/-- The open file ends with the last of what was written. -/
theorem BufferedStep.tails [DecidableEq ι] {new : List FileCall} {s' : BufferedSink ι} {old : Bytes}
    (hstep : BufferedStep blake3 w capacity new s s') (h : s.writer.out.Tails old) :
    s'.writer.out.Tails old := by
  have hfinish : ∀ {writer : BufferedState}, writer.out.Tails old → ∀ flush drop,
      (writer.finish flush drop).out.Tails old := fun h flush drop ↦ (h.flush flush).flush drop
  cases hstep with
  | emit | close | writer => exact h
  | writeBatch last _ _ => exact tails_writeBatchBuffered h last _
  | lastWrite last flush drop _ _ _ =>
      exact hfinish (tails_writeBatchBuffered h last _) flush drop
  | nothingLeft flush drop _ _ => exact hfinish h flush drop

theorem BufferedRun.tails [DecidableEq ι] {s₀ : BufferedSink ι} {old : Bytes}
    (hrun : BufferedRun blake3 w capacity s₀ calls s) (h : s₀.writer.out.Tails old) :
    s.writer.out.Tails old := by
  induction hrun with
  | refl => exact h
  | tail _ hstep ih => exact hstep.tails ih

end Runs

/-! ## Lost events -/

/-- **Events lost to I/O errors.**  In every interleaving, no event is missing exactly when no call
of `write_batch` met an error before its last flush (neither a rotation that was due nor a write of
a record failed) and at the end of `run` the last flush worked or that of the buffer that is
dropped.

What counts as being in a file is: the record of each entry that was taken is among the bytes that
the writer took, and where it counts as being in a file, among those that were written; and the open
file ends with the last of these. -/
theorem accounted_iff [DecidableEq ι] {calls : List FileCall} {s : BufferedSink ι}
    (hrun : BufferedRun blake3 w capacity (.start file₀) calls s) :
    (s.Accounted ↔ ∀ call ∈ calls, call.Clear blake3 w) ∧
    (∀ x ∈ s.taken, Marked x s.writer.out.handed ∧
      (x.2 ≤ s.writer.out.sent.length → Marked x s.writer.out.sent)) ∧
    ∀ old, file₀.disk.Open (· = old) → s.writer.out.Tails old := by
  have hbalanced := hrun.balanced balanced_start
  refine ⟨hbalanced.accounted, fun x hx ↦ ?_, fun old hold ↦ ?_⟩
  · exact ⟨hbalanced.marked x hx, fun hle ↦ (hbalanced.marked x hx).of_le hle⟩
  · refine hrun.tails (hold.mono ?_)
    rintro file rfl
    change file <:+ file ++ []
    rw [List.append_nil]

end Balance

/-! ### A flush that fails, and a rotation that does -/

/-- One event is written, and the flush at the end of its batch fails after ten bytes; the one at
the end of `run` works, and nothing is missing. -/
theorem accounted_iff_lateFlush :
    ∃ (calls : List FileCall) (s : BufferedSink Unit),
      BufferedRun lossBlake3 (.new 8388608 3) 1 (.start emptyFile) calls s ∧ s.sink.pc = .done ∧
        s.Accounted := by
  let batch : List (BatchEntry × BufferedFaults) := [(.event startedEvent, .none)]
  have hrun : BufferedRun lossBlake3 (.new 8388608 3) 1
      (.start emptyFile : BufferedSink Unit) _ _ :=
    (((((((((((BufferedRun.refl (s := .start emptyFile)).tail
      (.emit () (.accept startedEvent rfl rfl (by decide) (by decide)))).tail
      (.close (.close (fun _ ↦ rfl) rfl))).tail
      (.writer (.swap 1700000000 rfl) rfl (by decide))).tail
      (.writer (.blockingRecv rfl rfl rfl) rfl (by simp))).tail
      (.writer (.tryRecvNone rfl (by decide) rfl) rfl (by simp))).tail
      (.writeBatch (.after 10) rfl (show batch.map Prod.fst = _ from rfl))).tail
      (.writer (.swap 1700000001 rfl) rfl (by decide))).tail
      (.writer (.blockingRecvNone rfl rfl rfl rfl) rfl (by simp))).tail
      (.writer (.drainNone rfl rfl) rfl (by simp))).tail
      (.writer (.lastSwap 1700000002 rfl) rfl (by decide))).tail
      (.nothingLeft .none .none rfl rfl)
  refine ⟨_, _, hrun, rfl, (accounted_iff hrun).1.mpr ?_⟩
  simp only [List.nil_append, List.append_nil, List.singleton_append, List.forall_mem_cons,
    List.not_mem_nil, false_implies, implies_true, and_true]
  refine ⟨⟨⟨?_, trivial⟩, trivial⟩, trivial, .inl (WriteFault.not_fails_none _)⟩
  rw [Writer.Clear, if_neg (by decide)]
  exact not_refuses_onlyRotate .none _ _

/-- A file that is as long as it may be. -/
def fullFile : WriterState where
  disk := { files := Function.update (fun _ ↦ none) active (some (List.replicate 8388608 10))
            handle := some active }
  bytes := 8388608
  seq := 0
  prev := genesis

/-- A loss record and an event, in a batch for which the file has to be rotated. -/
def lostBatch : List (BatchEntry × BufferedFaults) :=
  [(.loss 1700000000 [startedEvent], .onlyRotate .closeFails), (.event startedEvent, .none)]

/-- A queue of one event is full, so that the second event is refused and counted; the writer takes
both into a batch, and the rotation before the loss record fails. -/
theorem exists_bufferedRun_lostBatch (blake3 : Bytes → Bytes32) :
    ∃ s : BufferedSink Unit, BufferedRun blake3 (.new 8388608 3) 1 (.start fullFile)
      [.writeBatch fullFile.buffered lostBatch] s := by
  have hrun : BufferedRun blake3 (.new 8388608 3) 1 (.start fullFile : BufferedSink Unit) _ _ :=
    ((((((((BufferedRun.refl (s := .start fullFile)).tail
      (.emit () (.accept startedEvent rfl rfl (by decide) (by decide)))).tail
      (.emit () (.refuse startedEvent rfl rfl (.inl (by decide))))).tail
      (.emit () (.count rfl))).tail
      (.writer (.swap 1700000000 rfl) rfl (by decide))).tail
      (.writer (.notEmpty rfl (by simp [SinkState.swap, SinkState.start, BufferedSink.start])) rfl
        (by simp))).tail
      (.writer (.tryRecv rfl (by decide) rfl) rfl (by decide))).tail
      (.writer (.tryRecvNone rfl (by decide) rfl) rfl (by simp))).tail
      (.writeBatch .none rfl (show lostBatch.map Prod.fst = _ from rfl))
  exact ⟨_, hrun⟩

theorem not_clear_lostBatch (blake3 : Bytes → Bytes32) :
    ¬ (FileCall.writeBatch fullFile.buffered lostBatch).Clear blake3 (.new 8388608 3) := by
  rintro ⟨⟨hfirst, -⟩, -⟩
  rw [Writer.Clear, if_pos (by decide)] at hfirst
  obtain ⟨⟨-, hclose, -⟩, -⟩ := hfirst
  cases hclose

/-- **Events are lost without notice** when a rotation fails, whatever BLAKE3 says. -/
theorem not_forall_accounted :
    ¬ ∃ blake3 : Bytes → Bytes32, ∀ (calls : List FileCall) (s : BufferedSink Unit),
      BufferedRun blake3 (.new 8388608 3) 1 (.start fullFile) calls s → s.Accounted := by
  rintro ⟨blake3, hall⟩
  obtain ⟨s, hrun⟩ := exists_bufferedRun_lostBatch blake3
  have hclear := (hrun.balanced balanced_start).accounted.mp (hall _ s hrun)
  exact not_clear_lostBatch blake3 (hclear _ List.mem_cons_self)

end Vaiexia.Audit
