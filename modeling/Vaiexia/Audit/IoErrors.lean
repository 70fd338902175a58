import Vaiexia.Audit.Resume
import Vaiexia.Audit.Sink
import Vaiexia.Lib.Gaps

/-!
# The writer under I/O errors

`rotate` and `write_batch` of `crates/vaiexia-server/src/audit/file.rs` on a file system where a
flush, a rotation or the write of a record may fail.  A write that fails leaves no byte of its
record: it is one that finds no room in the buffer, or a record longer than the buffer.  The buffer
itself and the flush that ends a batch are in the module `Vaiexia.Audit.Buffered`, which is seen
through the buffer as this one.

`write_batch` takes a record for the last one of the chain before it writes it.  So the records
that are *made* are always a chain, whether they reach the file or not (`Traced`), and what is in
the files is one exactly when no record failed between two that were written
(`chainSurvives_iff`).
-/

namespace Vaiexia.Audit

open Vaiexia.Lib Utf8 Gaps

/-- Which file operations fail for one event. -/
structure EventFaults where
  /-- The flush before the rotation. -/
  flush : Bool
  rotate : RotateFaults
  /-- The write of the record. -/
  write : Bool

/-- Nothing fails but what may fail in a rotation. -/
def EventFaults.onlyRotate (faults : RotateFaults) : EventFaults where
  flush := false
  rotate := faults
  write := false

/-- Nothing fails. -/
def EventFaults.none : EventFaults := .onlyRotate .none

/-- Nothing fails but the write of the record. -/
def EventFaults.onlyWrite : EventFaults where
  flush := false
  rotate := .none
  write := true

/-! ## Writing -/

/-- `FileAuditWriter::rotate`. -/
def Writer.rotateIo (w : Writer) (faults : EventFaults) (s : WriterState) :
    WriterState × Except IoError Unit :=
  if faults.flush then (s, .error .failed) else w.rotate faults.rotate s

section

variable (blake3 : Bytes → Bytes32)

/-- Writing one record: the chain has it as its last one before the write can fail. -/
def WriterState.writeIo (s : WriterState) (fault : Bool) (ev : AuditEvent) :
    WriterState × Except IoError Unit :=
  let record := s.record ev
  let s := { s with seq := record.seq, prev := lineHash blake3 record.line }
  if fault then (s, .error .failed)
  else
    ({ s with disk := s.disk.append record.bytes, bytes := s.bytes + record.bytes.length }, .ok ())

/-- The body of the loop of `write_batch`. -/
def Writer.writeEventIo (w : Writer) (faults : EventFaults) (s : WriterState) (ev : AuditEvent) :
    WriterState × Except IoError Unit :=
  if w.maxBytes ≤ s.bytes then
    match w.rotateIo faults s with
    | (s, .error e) => (s, .error e)
    | (s, .ok ()) => s.writeIo blake3 faults.write ev
  else s.writeIo blake3 faults.write ev

/-- `FileAuditWriter::write_batch`; an error drops the rest of the batch. -/
def Writer.writeBatchIo (w : Writer) : WriterState → List (AuditEvent × EventFaults) →
    WriterState × Except IoError Unit
  | s, [] => (s, .ok ())
  | s, (ev, faults) :: batch =>
      match w.writeEventIo blake3 faults s ev with
      | (s, .error e) => (s, .error e)
      | (s, .ok ()) => w.writeBatchIo s batch

/-- The loop of `FileAuditWriter::run`: an error is logged and the next batch is written. -/
def Writer.writeBatchesIo (w : Writer) (s : WriterState)
    (batches : List (List (AuditEvent × EventFaults))) : WriterState :=
  batches.foldl (fun s batch ↦ (w.writeBatchIo blake3 s batch).1) s

/-! ### With rotations alone failing -/

variable {blake3}

theorem writeEventIo_onlyRotate (w : Writer) (faults : RotateFaults) (s : WriterState)
    (ev : AuditEvent) :
    w.writeEventIo blake3 (.onlyRotate faults) s ev = w.writeEvent blake3 faults s ev := by
  have hrotate : w.rotateIo (.onlyRotate faults) s = w.rotate faults s := rfl
  rw [Writer.writeEventIo, Writer.writeEvent, hrotate]
  rfl

/-- **A writer whose writes do not fail** is the one of the module `Vaiexia.Audit.Writer`. -/
theorem writeBatchIo_onlyRotate (w : Writer) (s : WriterState)
    (batch : List (AuditEvent × RotateFaults)) :
    w.writeBatchIo blake3 s (batch.map fun x ↦ (x.1, .onlyRotate x.2))
      = w.writeBatch blake3 s batch := by
  induction batch generalizing s with
  | nil => rfl
  | cons x batch ih =>
      obtain ⟨ev, faults⟩ := x
      rw [List.map_cons, Writer.writeBatchIo, writeEventIo_onlyRotate, Writer.writeBatch]
      rcases w.writeEvent blake3 faults s ev with ⟨s', e | _⟩
      · rfl
      · exact ih s'

end

/-! ## The records that are made -/

section

variable (blake3 : Bytes → Bytes32)

/-- The record that is made for an event, unless the rotation before it fails, with whether it
reaches the file. -/
def Writer.eventRecords (w : Writer) (faults : EventFaults) (s : WriterState)
    (ev : AuditEvent) : List (Record × Bool) :=
  if w.maxBytes ≤ s.bytes then
    match w.rotateIo faults s with
    | (_, .error _) => []
    | (s, .ok ()) => [(s.record ev, !faults.write)]
  else [(s.record ev, !faults.write)]

/-- The records that are made in a batch. -/
def Writer.batchRecords (w : Writer) : WriterState → List (AuditEvent × EventFaults) →
    List (Record × Bool)
  | _, [] => []
  | s, (ev, faults) :: batch =>
      w.eventRecords faults s ev ++
        match w.writeEventIo blake3 faults s ev with
        | (_, .error _) => []
        | (s, .ok ()) => w.batchRecords s batch

/-- The records that are made in batch after batch. -/
def Writer.batchesRecords (w : Writer) : WriterState →
    List (List (AuditEvent × EventFaults)) → List (Record × Bool)
  | _, [] => []
  | s, batch :: batches =>
      w.batchRecords blake3 s batch
        ++ w.batchesRecords (w.writeBatchIo blake3 s batch).1 batches

end

/-! ## One event -/

/-- The active file is open and holds these bytes. -/
structure WriterState.Holds (s : WriterState) (file : Bytes) : Prop where
  handle : s.disk.handle = some active
  file : s.disk.files active = some file

/-- The active file is open, or a rotation has failed half-way: then the next event tries to rotate
again. -/
def Writer.Sound (w : Writer) (s : WriterState) : Prop :=
  (∃ file, s.Holds file) ∨ s.disk.files active = none ∧ w.maxBytes ≤ s.bytes

/-- What the file holds that the next record is written to. -/
def Writer.Target (w : Writer) (s : WriterState) (file : Bytes) : Prop :=
  if w.maxBytes ≤ s.bytes then file = [] else s.Holds file

/-- What can become of one event: the rotation fails, the write fails, or the record is written. -/
inductive EventStep (blake3 : Bytes → Bytes32) (w : Writer) (s : WriterState) (ev : AuditEvent) :
    List (Record × Bool) → WriterState × Except IoError Unit → Prop
  | unrotated {s' : WriterState} {e : IoError} (hdue : w.maxBytes ≤ s.bytes)
      (hbytes : s'.bytes = s.bytes) (hseq : s'.seq = s.seq) (hprev : s'.prev = s.prev)
      (hfile : s'.disk.files active = none ∨ ∃ file, s.Holds file ∧ s'.Holds file) :
      EventStep blake3 w s ev [] (s', .error e)
  | lost {s' : WriterState} {e : IoError} {file : Bytes} (htarget : w.Target s file)
      (hseq : s'.seq = (s.record ev).seq) (hprev : s'.prev = lineHash blake3 (s.record ev).line)
      (hfile : s'.Holds file) : EventStep blake3 w s ev [(s.record ev, false)] (s', .error e)
  | written {s' : WriterState} {file : Bytes} (htarget : w.Target s file)
      (hseq : s'.seq = (s.record ev).seq) (hprev : s'.prev = lineHash blake3 (s.record ev).line)
      (hfile : s'.Holds (file ++ (s.record ev).bytes)) :
      EventStep blake3 w s ev [(s.record ev, true)] (s', .ok ())

section

variable {blake3 : Bytes → Bytes32} {w : Writer} {s : WriterState} {faults : EventFaults}
  {ev : AuditEvent}

/-- A rotation leaves an empty active file, or fails: then the active file is still there, or is
gone. -/
theorem rotateIo_cases (faults : EventFaults) (h : w.Sound s) :
    (∃ s' e, w.rotateIo faults s = (s', .error e) ∧ s'.bytes = s.bytes ∧ s'.seq = s.seq ∧
      s'.prev = s.prev ∧
      (s'.disk.files active = none ∨ ∃ file, s.Holds file ∧ s'.Holds file)) ∨
    ∃ s', w.rotateIo faults s = (s', .ok ()) ∧ s'.seq = s.seq ∧ s'.prev = s.prev ∧
      s'.Holds [] := by
  -- the active file before the last renaming
  have hroom : ∀ file, s.Holds file →
      ({ s with disk := w.makeRoom faults.rotate s.disk } : WriterState).Holds file :=
    fun file hfile ↦ ⟨handle_makeRoom hfile.handle, (files_makeRoom_active ..).trans hfile.file⟩
  rw [Writer.rotateIo]
  rcases faults.flush with _ | _
  · rcases rotate_cases w faults.rotate s with ⟨_, e, he⟩ | ⟨file, _, hfile, hreopen⟩
    · refine .inl ⟨_, e, he, rfl, rfl, rfl, ?_⟩
      rcases h with ⟨file, hfile⟩ | ⟨hnone, _⟩
      · exact .inr ⟨file, hfile, hroom file hfile⟩
      · exact .inl ((files_makeRoom_active ..).trans hnone)
    · rcases hreopen with ⟨_, he⟩ | ⟨_, hok⟩
      · refine .inl ⟨_, _, he, rfl, rfl, rfl, .inl ?_⟩
        change ((w.makeRoom faults.rotate s.disk).rename false active 1).1.files active = none
        rw [Disk.files_rename, files_makeRoom_active, hfile, if_pos ⟨rfl, rfl⟩,
          Function.update_of_ne (by decide), Function.update_self]
      · exact .inr ⟨_, hok, rfl, rfl, rfl, (files_rotate_ok hfile active).trans (if_pos rfl)⟩
  · refine .inl ⟨s, .failed, rfl, rfl, rfl, rfl, ?_⟩
    rcases h with ⟨file, hfile⟩ | ⟨hnone, _⟩
    · exact .inr ⟨file, hfile, hfile⟩
    · exact .inl hnone

/-- Writing to a file that is open. -/
theorem writeIo_step {s₁ : WriterState} {file : Bytes} (htarget : w.Target s file)
    (hseq : s₁.seq = s.seq) (hprev : s₁.prev = s.prev) (hfile : s₁.Holds file) :
    EventStep blake3 w s ev [(s.record ev, !faults.write)] (s₁.writeIo blake3 faults.write ev) := by
  have hrecord : s₁.record ev = s.record ev := by
    rw [WriterState.record, WriterState.record, hseq, hprev]
  rw [WriterState.writeIo, hrecord]
  rcases faults.write with _ | _
  · refine .written htarget rfl rfl ⟨?_, ?_⟩
    · exact (Disk.handle_append _ _).trans hfile.handle
    · exact (congrFun (Disk.files_append _ hfile.handle) active).trans (by
        rw [Function.update_self, hfile.file]
        rfl)
  · exact .lost htarget rfl rfl ⟨hfile.handle, hfile.file⟩

/-- **One event.** -/
theorem writeEventIo_step (blake3 : Bytes → Bytes32) (faults : EventFaults) (ev : AuditEvent)
    (h : w.Sound s) :
    EventStep blake3 w s ev (w.eventRecords faults s ev) (w.writeEventIo blake3 faults s ev) := by
  rw [Writer.eventRecords, Writer.writeEventIo]
  by_cases hdue : w.maxBytes ≤ s.bytes
  · rw [if_pos hdue, if_pos hdue]
    rcases rotateIo_cases faults h with
      ⟨s₁, e, he, hbytes, hseq, hprev, hfile⟩ | ⟨s₁, hok, hseq, hprev, hfile⟩
    · rw [he]
      exact .unrotated hdue hbytes hseq hprev hfile
    · have hrecord : s₁.record ev = s.record ev := by
        rw [WriterState.record, WriterState.record, hseq, hprev]
      have htarget : w.Target s [] := by rw [Writer.Target, if_pos hdue]
      rw [hok]
      change EventStep blake3 w s ev [(s₁.record ev, _)] _
      rw [hrecord]
      exact writeIo_step htarget hseq hprev hfile
  · rw [if_neg hdue, if_neg hdue]
    rcases h with ⟨file, hfile⟩ | ⟨_, hdue'⟩
    · exact writeIo_step (by rwa [Writer.Target, if_neg hdue]) rfl rfl hfile
    · exact absurd hdue' hdue

/-- The open file has one content. -/
theorem WriterState.Holds.eq_of_mem {file file' : Bytes} (h : s.Holds file)
    (hmem : file' ∈ s.disk.files active) : file = file' :=
  Option.some.inj (h.file.symm.trans hmem)

/-- A rotation that failed has not changed the active file, unless the file is gone. -/
theorem holds_of_unrotated {s' : WriterState} {file : Bytes}
    (hfile : s'.disk.files active = none ∨ ∃ file, s.Holds file ∧ s'.Holds file)
    (hmem : file ∈ s'.disk.files active) : s.Holds file := by
  rcases hfile with hnone | ⟨file', hold, hnew⟩
  · rw [hnone] at hmem
    cases hmem
  · obtain rfl := hnew.eq_of_mem hmem
    exact hold

theorem EventStep.sound {made : List (Record × Bool)} {res : WriterState × Except IoError Unit}
    (h : EventStep blake3 w s ev made res) : w.Sound res.1 := by
  cases h with
  | unrotated hdue hbytes _ _ hfile =>
      rcases hfile with hnone | ⟨file, _, hfile⟩
      · exact .inr ⟨hnone, hbytes ▸ hdue⟩
      · exact .inl ⟨file, hfile⟩
  | lost _ _ _ hfile => exact .inl ⟨_, hfile⟩
  | written _ _ _ hfile => exact .inl ⟨_, hfile⟩

/-! ## Whole runs -/

section Induct

variable {P : List (Record × Bool) → Nat → WriterState → Prop} {n : Nat}

/-- **Induction along a batch.**  What holds of the records made so far, of the number of events
still to come and of the writer, and is kept by every event, holds wherever the batch ends. -/
theorem writeBatchIo_induct (made : List (Record × Bool))
    (hevent : ∀ {made n s} (faults : EventFaults) (ev : AuditEvent), P made (n + 1) s →
      P (made ++ w.eventRecords faults s ev) n (w.writeEventIo blake3 faults s ev).1)
    (hmono : ∀ {made m n s}, m ≤ n → P made n s → P made m s)
    (batch : List (AuditEvent × EventFaults)) (h : P made (batch.length + n) s) :
    P (made ++ w.batchRecords blake3 s batch) n (w.writeBatchIo blake3 s batch).1 := by
  induction batch generalizing made s with
  | nil =>
      rw [Writer.batchRecords, List.append_nil]
      exact hmono (Nat.le_add_left _ _) h
  | cons x batch ih =>
      obtain ⟨ev, faults⟩ := x
      rw [List.length_cons, Nat.add_right_comm] at h
      have hs := hevent faults ev h
      rw [Writer.batchRecords, Writer.writeBatchIo]
      rcases hres : w.writeEventIo blake3 faults s ev with ⟨s', e | _⟩
      · rw [hres] at hs
        rw [List.append_nil]
        exact hmono (Nat.le_add_left _ _) hs
      · rw [hres] at hs
        rw [← List.append_assoc]
        exact ih _ hs

/-- **Induction along a run of batches.** -/
theorem writeBatchesIo_induct (made : List (Record × Bool))
    (hevent : ∀ {made n s} (faults : EventFaults) (ev : AuditEvent), P made (n + 1) s →
      P (made ++ w.eventRecords faults s ev) n (w.writeEventIo blake3 faults s ev).1)
    (hmono : ∀ {made m n s}, m ≤ n → P made n s → P made m s)
    (batches : List (List (AuditEvent × EventFaults))) (h : P made (batches.flatten.length + n) s) :
    P (made ++ w.batchesRecords blake3 s batches) n (w.writeBatchesIo blake3 s batches) := by
  induction batches generalizing made s with
  | nil =>
      rw [Writer.batchesRecords, List.append_nil]
      exact hmono (Nat.le_add_left _ _) h
  | cons batch batches ih =>
      rw [List.flatten_cons, List.length_append, Nat.add_assoc] at h
      have hs := ih _ (writeBatchIo_induct (P := P) made hevent hmono batch h)
      rw [List.append_assoc] at hs
      exact hs

end Induct

/-- What holds of the writer when these are the records it has made: they are a chain, its counter
and its link are those of the last one, and the active file holds the last of those that were
written. -/
structure Traced (blake3 : Bytes → Bytes32) (w : Writer) (made : List (Record × Bool))
    (s : WriterState) : Prop where
  sound : w.Sound s
  chain : (made.map Prod.fst).IsChain (Follows blake3)
  lt : ∀ r ∈ made.map Prod.fst, r.seq < 2 ^ 64
  last : ∀ r ∈ (made.map Prod.fst).getLast?, s.seq = r.seq ∧ s.prev = lineHash blake3 r.line
  file : ∀ file ∈ s.disk.files active, ∃ cur, cur <:+ kept made ∧ file = fileBytes cur

variable {made new : List (Record × Bool)}

/-- A writer that met no error has written all its records. -/
theorem Consistent.traced {log : SegmentedLog Record} (h : Consistent blake3 w log s)
    (hlt : log.written.length < 2 ^ 64) :
    Traced blake3 w (log.written.map fun r ↦ (r, true)) s := by
  have hfst : (log.written.map fun r ↦ (r, true)).map Prod.fst = log.written := by
    simp [Function.comp_def]
  have hkept : kept (log.written.map fun r ↦ (r, true)) = log.written := by
    rw [kept_of_forall (by simp), hfst]
  refine ⟨.inl ⟨_, h.handle, h.file_active⟩, ?_, ?_, ?_, ?_⟩
  · rw [hfst]
    exact h.numbered.chain
  · intro r hr
    have := h.numbered.seq_le (hfst ▸ hr)
    omega
  · intro r hr
    rw [hfst] at hr
    refine ⟨h.seq.trans (h.numbered.seq_getLast hr).symm, h.prev.trans ?_⟩
    rw [nextPrev, Option.mem_def.mp hr]
    rfl
  · intro file hfile
    obtain rfl := Option.some.inj (h.file_active.symm.trans hfile)
    refine ⟨log.current, ?_, rfl⟩
    rw [hkept, SegmentedLog.written, SegmentedLog.segments, List.reverse_cons, List.flatten_append]
    simp

/-- The next record continues the ones that were made. -/
theorem Traced.follows (h : Traced blake3 w made s) (hlt : s.seq + 1 < 2 ^ 64) :
    ∀ r ∈ (made.map Prod.fst).getLast?, Follows blake3 r (s.record ev) := by
  intro r hr
  obtain ⟨hseq, hprev⟩ := h.last r hr
  refine ⟨?_, hprev⟩
  rw [← hseq]
  exact Nat.mod_eq_of_lt hlt

/-- The file that the next record goes to holds the last of the written ones, or nothing. -/
theorem Traced.target (h : Traced blake3 w made s) {file : Bytes} (htarget : w.Target s file) :
    ∃ cur, cur <:+ kept made ∧ file = fileBytes cur := by
  rw [Writer.Target] at htarget
  split at htarget
  · exact ⟨[], List.nil_suffix, htarget⟩
  · exact h.file file htarget.file

/-- Making one more record, whether it is written or not. -/
theorem Traced.snoc {s' : WriterState} {written : Bool} (h : Traced blake3 w made s)
    (hlt : s.seq + 1 < 2 ^ 64) (hsound : w.Sound s') (hseq : s'.seq = (s.record ev).seq)
    (hprev : s'.prev = lineHash blake3 (s.record ev).line)
    (hfile : ∀ file ∈ s'.disk.files active,
      ∃ cur, cur <:+ kept (made ++ [(s.record ev, written)]) ∧ file = fileBytes cur) :
    Traced blake3 w (made ++ [(s.record ev, written)]) s' := by
  have hfst : (made ++ [(s.record ev, written)]).map Prod.fst
      = made.map Prod.fst ++ [s.record ev] := by simp
  refine ⟨hsound, ?_, ?_, ?_, hfile⟩
  · rw [hfst]
    refine List.isChain_append.mpr ⟨h.chain, List.isChain_singleton _, fun r hr r' hr' ↦ ?_⟩
    obtain rfl : s.record ev = r' := by simpa using hr'
    exact h.follows hlt r hr
  · intro r hr
    rw [hfst, List.mem_append, List.mem_singleton] at hr
    rcases hr with hr | rfl
    · exact h.lt r hr
    · exact Nat.mod_lt _ (by decide)
  · intro r hr
    obtain rfl : s.record ev = r := by simpa [hfst] using hr
    exact ⟨hseq, hprev⟩

/-- **One event** keeps the invariant. -/
theorem EventStep.traced {res : WriterState × Except IoError Unit}
    (hstep : EventStep blake3 w s ev new res) (h : Traced blake3 w made s)
    (hlt : s.seq + 1 < 2 ^ 64) : Traced blake3 w (made ++ new) res.1 ∧ res.1.seq ≤ s.seq + 1 := by
  have hrecord : (s.record ev).seq = s.seq + 1 := Nat.mod_eq_of_lt hlt
  have hsound := hstep.sound
  cases hstep with
  | unrotated _ _ hseq hprev hfile =>
      rw [List.append_nil]
      refine ⟨⟨hsound, h.chain, h.lt, fun r hr ↦ ?_, fun file hmem ↦ ?_⟩, ?_⟩
      · rw [hseq, hprev]
        exact h.last r hr
      · exact h.file _ (holds_of_unrotated hfile hmem).file
      · exact (Nat.le_of_eq hseq).trans (Nat.le_succ _)
  | lost htarget hseq hprev hfile =>
      refine ⟨h.snoc hlt hsound hseq hprev fun file hmem ↦ ?_, by simp only [hseq]; omega⟩
      obtain rfl := hfile.eq_of_mem hmem
      obtain ⟨cur, hcur, hbytes⟩ := h.target htarget
      exact ⟨cur, by simpa using hcur, hbytes⟩
  | written htarget hseq hprev hfile =>
      refine ⟨h.snoc hlt hsound hseq hprev fun file hmem ↦ ?_, by simp only [hseq]; omega⟩
      obtain rfl := hfile.eq_of_mem hmem
      obtain ⟨cur, ⟨before, hcur⟩, rfl⟩ := h.target htarget
      refine ⟨cur ++ [s.record ev], ⟨before, ?_⟩, (fileBytes_append _ _).symm⟩
      simp [← hcur]

/-- The same, with room for so many more records. -/
theorem Traced.writeEventIo {n : Nat} (faults : EventFaults) (ev : AuditEvent)
    (h : Traced blake3 w made s ∧ s.seq + (n + 1) < 2 ^ 64) :
    Traced blake3 w (made ++ w.eventRecords faults s ev) (w.writeEventIo blake3 faults s ev).1 ∧
      (w.writeEventIo blake3 faults s ev).1.seq + n < 2 ^ 64 := by
  obtain ⟨htraced, hlt⟩ := h
  obtain ⟨hs, hseq⟩ := (writeEventIo_step blake3 faults ev htraced.sound).traced htraced (by omega)
  exact ⟨hs, by omega⟩

/-- Every batch keeps it, wherever it ends. -/
theorem Traced.writeBatchIo {n : Nat} (batch : List (AuditEvent × EventFaults))
    (h : Traced blake3 w made s) (hlt : s.seq + (batch.length + n) < 2 ^ 64) :
    Traced blake3 w (made ++ w.batchRecords blake3 s batch) (w.writeBatchIo blake3 s batch).1 ∧
      (w.writeBatchIo blake3 s batch).1.seq + n < 2 ^ 64 :=
  writeBatchIo_induct (P := fun made n s ↦ Traced blake3 w made s ∧ s.seq + n < 2 ^ 64) made
    Traced.writeEventIo (fun hle hs ↦ ⟨hs.1, by omega⟩) batch ⟨h, hlt⟩

/-- **Every run of batches** keeps it. -/
theorem Traced.writeBatchesIo (batches : List (List (AuditEvent × EventFaults)))
    (h : Traced blake3 w made s) (hlt : s.seq + batches.flatten.length < 2 ^ 64) :
    Traced blake3 w (made ++ w.batchesRecords blake3 s batches)
      (w.writeBatchesIo blake3 s batches) :=
  (writeBatchesIo_induct (n := 0)
    (P := fun made n s ↦ Traced blake3 w made s ∧ s.seq + n < 2 ^ 64) made
    Traced.writeEventIo (fun hle hs ↦ ⟨hs.1, by omega⟩) batches ⟨h, hlt⟩).1

/-! ## The chain in the files -/

/-- The chain survives: every record that was written continues the one that was written before it,
and the verifier accepts the active file. -/
structure ChainSurvives (blake3 : Bytes → Bytes32) (fromStr : List Char → Option Json)
    (made : List (Record × Bool)) (d : Disk Nat) : Prop where
  continues : (kept made).IsChain (Follows blake3)
  accepted : ∀ file ∈ d.files active, ∃ count, verifyChain blake3 fromStr (some file) = .ok count

variable {fromStr : List Char → Option Json}

/-- The chain survives exactly when no record failed between two that were written. -/
theorem Traced.chainSurvives_iff (hread : Json.ReadsBack fromStr) (h : Traced blake3 w made s) :
    ChainSurvives blake3 fromStr made s.disk ↔ ¬ HasGap made := by
  have hgap := isChain_kept_iff (R := Follows blake3) Record.seq
    (fun _ _ hfollows ↦ hfollows.1) h.chain
  constructor
  · intro hsurvives
    exact hgap.mp hsurvives.continues
  · intro hnot
    have hkept := hgap.mpr hnot
    refine ⟨hkept, fun file hfile ↦ ?_⟩
    obtain ⟨cur, hcur, rfl⟩ := h.file file hfile
    refine ⟨cur.length, verifyChain_fileBytes hread (fun r hr ↦ ?_) (hkept.suffix hcur)⟩
    exact h.lt r (List.mem_map_of_mem (mem_kept.mp (hcur.subset hr)))

/-- **Write errors and the chain.**  Whatever the writer has made so far, whatever batches come and
whatever fails in them: the active file holds the last of the records that were written, and the
chain survives exactly when no record's write failed between two records that were written. -/
theorem chain_survives_write_errors_iff (hread : Json.ReadsBack fromStr)
    (batches : List (List (AuditEvent × EventFaults))) (h : Traced blake3 w made s)
    (hlt : s.seq + batches.flatten.length < 2 ^ 64) :
    (∀ file ∈ (w.writeBatchesIo blake3 s batches).disk.files active,
      ∃ cur, cur <:+ kept (made ++ w.batchesRecords blake3 s batches) ∧ file = fileBytes cur) ∧
    (ChainSurvives blake3 fromStr (made ++ w.batchesRecords blake3 s batches)
        (w.writeBatchesIo blake3 s batches).disk ↔
      ¬ HasGap (made ++ w.batchesRecords blake3 s batches)) :=
  ⟨(h.writeBatchesIo batches hlt).file, (h.writeBatchesIo batches hlt).chainSurvives_iff hread⟩

end

/-! ### A write that fails between two that do not -/

/-- An event two fields of which are full of characters of four bytes: its record is longer than the
buffer of the writer. -/
def longEvent : AuditEvent :=
  (AuditEvent.new 1700000000 .mutation .ok longMethod).withDetail longMethod

/-- Two events in one batch, the write of the second one failing, and one event in the next. -/
def failingBatches : List (List (AuditEvent × EventFaults)) :=
  [[(startedEvent, .none), (longEvent, .onlyWrite)], [(startedEvent, .none)]]

theorem traced_emptyFile (blake3 : Bytes → Bytes32) (w : Writer) :
    Traced blake3 w [] emptyFile :=
  (consistent_start (d := .empty) fun _ ↦ rfl).traced (by decide)

theorem chain_survives_write_errors_iff_failingBatches :
    (∀ file ∈ ((Writer.new 8388608 3).writeBatchesIo lossBlake3 emptyFile
        failingBatches).disk.files active,
      ∃ cur, cur <:+ kept ([] ++ (Writer.new 8388608 3).batchesRecords lossBlake3 emptyFile
        failingBatches) ∧ file = fileBytes cur) ∧
    (ChainSurvives lossBlake3 Json.parse
        ([] ++ (Writer.new 8388608 3).batchesRecords lossBlake3 emptyFile failingBatches)
        ((Writer.new 8388608 3).writeBatchesIo lossBlake3 emptyFile failingBatches).disk ↔
      ¬ HasGap ([] ++ (Writer.new 8388608 3).batchesRecords lossBlake3 emptyFile
        failingBatches)) :=
  chain_survives_write_errors_iff Json.readsBack_parse failingBatches
    (traced_emptyFile lossBlake3 (.new 8388608 3)) (by decide)

/-- Below the limit there is no rotation. -/
theorem writeEventIo_of_lt (blake3 : Bytes → Bytes32) {w : Writer} {s : WriterState}
    (hlt : s.bytes < w.maxBytes) (faults : EventFaults) (ev : AuditEvent) :
    w.writeEventIo blake3 faults s ev = s.writeIo blake3 faults.write ev ∧
      w.eventRecords faults s ev = [(s.record ev, !faults.write)] := by
  rw [Writer.writeEventIo, Writer.eventRecords, if_neg (by omega), if_neg (by omega)]
  exact ⟨rfl, rfl⟩

/-- **The chain does not survive** a write that fails between two that do not, whatever BLAKE3
says. -/
theorem not_chainSurvives_failingBatches :
    ¬ ∃ blake3 : Bytes → Bytes32, ChainSurvives blake3 Json.parse
      ((Writer.new 8388608 3).batchesRecords blake3 emptyFile failingBatches)
      ((Writer.new 8388608 3).writeBatchesIo blake3 emptyFile failingBatches).disk := by
  rintro ⟨blake3, hsurvives⟩
  have htraced := (traced_emptyFile blake3 (.new 8388608 3)).writeBatchesIo failingBatches
    (by decide)
  refine (htraced.chainSurvives_iff Json.readsBack_parse).mp hsurvives ?_
  let w : Writer := .new 8388608 3
  let s₁ := emptyFile.write blake3 startedEvent
  let s₂ := (s₁.writeIo blake3 true longEvent).1
  -- the file stays far below the limit
  have hs₁ : s₁.bytes < w.maxBytes := by
    have hline := Record.byteLen_line_lt (r := emptyFile.record startedEvent) (by decide)
    have hnl : ('\n' : Char).utf8Size = 1 := by decide
    have hbytes : s₁.bytes = byteLen (emptyFile.record startedEvent).line + 1 := by
      simp [s₁, WriterState.write, emptyFile, Record.bytes, hnl]
    have hmax : w.maxBytes = 8388608 := rfl
    omega
  have hs₀ : emptyFile.bytes < w.maxBytes := by decide
  obtain ⟨hwrite₀, hrecords₀⟩ := writeEventIo_of_lt blake3 hs₀ .none startedEvent
  obtain ⟨hwrite₁, hrecords₁⟩ := writeEventIo_of_lt blake3 hs₁ .onlyWrite longEvent
  obtain ⟨hwrite₂, hrecords₂⟩ :=
    writeEventIo_of_lt blake3 (w := w) (s := s₂) hs₁ .none startedEvent
  have hbatch : w.writeBatchIo blake3 emptyFile [(startedEvent, .none), (longEvent, .onlyWrite)]
      = (s₂, .error .failed) := by
    rw [Writer.writeBatchIo, hwrite₀]
    change w.writeBatchIo blake3 s₁ [(longEvent, .onlyWrite)] = _
    rw [Writer.writeBatchIo, hwrite₁]
    rfl
  have hrecords : w.batchesRecords blake3 emptyFile failingBatches
      = [(emptyFile.record startedEvent, true), (s₁.record longEvent, false),
        (s₂.record startedEvent, true)] := by
    rw [failingBatches, Writer.batchesRecords, hbatch, Writer.batchRecords, hrecords₀, hwrite₀]
    change [_] ++ w.batchRecords blake3 s₁ [(longEvent, .onlyWrite)] ++ _ = _
    rw [Writer.batchRecords, hrecords₁, hwrite₁, Writer.batchesRecords, Writer.batchRecords,
      hrecords₂, hwrite₂]
    rfl
  have hgap : HasGap (w.batchesRecords blake3 emptyFile failingBatches) := by
    rw [hrecords]
    exact ⟨_, _, _, List.Sublist.refl _⟩
  exact hgap

end Vaiexia.Audit
