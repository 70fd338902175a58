import Vaiexia.Audit.IoErrors
import Vaiexia.Lib.BufWriter

/-!
# The writer behind its buffer

`rotate`, `write_batch` and the end of `run` of `crates/vaiexia-server/src/audit/file.rs`, with the
`BufWriter` that the records go through.  A record is taken by the buffer, or is written to the file
if it has no room there; a write that fails may leave a first part of what it was given, and what a
flush does not write stays in the buffer.

The modules `Vaiexia.Audit.Writer` and `Vaiexia.Audit.IoErrors` leave the buffer out.  They are what
one sees through it: a batch does to the files and the buffer together what it does there to the
files, unless it tears a record (`writeBatchBuffered_through`); and if no flush and no write fails,
the buffer is empty after every batch (`writeBatchBuffered_onlyRotate`).
-/

namespace Vaiexia.Audit

open Vaiexia.Lib Utf8

/-- `WriterState`, with its `BufWriter`. -/
structure BufferedState where
  out : BufWriter Nat
  bytes : Nat
  seq : Nat
  prev : Link

/-- What the files are once the buffer is written. -/
def BufferedState.through (s : BufferedState) : WriterState where
  disk := s.out.through
  bytes := s.bytes
  seq := s.seq
  prev := s.prev

/-- With a buffer that is new. -/
def WriterState.buffered (s : WriterState) : BufferedState where
  out := { disk := s.disk, buf := [], sent := [] }
  bytes := s.bytes
  seq := s.seq
  prev := s.prev

@[simp] theorem WriterState.through_buffered (s : WriterState) : s.buffered.through = s := by
  simp [WriterState.buffered, BufferedState.through, BufWriter.through]

/-- Which file operations fail for one event. -/
structure BufferedFaults where
  /-- The flush before the rotation. -/
  flush : WriteFault
  rotate : RotateFaults
  /-- The flush that makes room for the line. -/
  lineFlush : WriteFault
  /-- The write of a line for which the buffer is too small. -/
  line : WriteFault
  /-- The flush that makes room for the newline. -/
  endFlush : WriteFault

/-- Nothing fails but what may fail in a rotation. -/
def BufferedFaults.onlyRotate (faults : RotateFaults) : BufferedFaults where
  flush := .none
  rotate := faults
  lineFlush := .none
  line := .none
  endFlush := .none

/-- Nothing fails. -/
def BufferedFaults.none : BufferedFaults := .onlyRotate .none

/-- The last renaming of a rotation. -/
def RotateFaults.closeFails : RotateFaults := { RotateFaults.none with close := true }

/-! ## Writing -/

/-- `FileAuditWriter::rotate`. -/
def Writer.rotateBuffered (w : Writer) (faults : BufferedFaults) (s : BufferedState) :
    BufferedState × Except IoError Unit :=
  match s.out.flush faults.flush with
  | (out, .error e) => ({ s with out }, .error e)
  | (out, .ok ()) =>
      match w.rotate faults.rotate ⟨out.disk, s.bytes, s.seq, s.prev⟩ with
      | (t, .error e) => ({ s with out := { out with disk := t.disk } }, .error e)
      | (t, .ok ()) =>
          ({ s with out := { out with disk := t.disk, buf := [] }, bytes := t.bytes }, .ok ())

section

variable (blake3 : Bytes → Bytes32)

/-- Writing one record: its line, and the newline. -/
def BufferedState.write (faults : BufferedFaults) (ev : AuditEvent) (s : BufferedState) :
    BufferedState × Except IoError Unit :=
  let record := s.through.record ev
  let s := { s with seq := record.seq, prev := lineHash blake3 record.line }
  match s.out.writeAll faults.lineFlush faults.line (encode record.line) with
  | (out, .error e) => ({ s with out }, .error e)
  | (out, .ok ()) =>
      match out.writeAll faults.endFlush .none (encode ['\n']) with
      | (out, .error e) => ({ s with out }, .error e)
      | (out, .ok ()) =>
          ({ s with out, bytes := s.bytes + ((encode record.line).length + 1) }, .ok ())

/-- The body of the loop of `write_batch`. -/
def Writer.writeEventBuffered (w : Writer) (faults : BufferedFaults) (s : BufferedState)
    (ev : AuditEvent) : BufferedState × Except IoError Unit :=
  if w.maxBytes ≤ s.bytes then
    match w.rotateBuffered faults s with
    | (s, .error e) => (s, .error e)
    | (s, .ok ()) => s.write blake3 faults ev
  else s.write blake3 faults ev

/-- `FileAuditWriter::write_batch`.  An error drops the rest of the batch; otherwise the buffer is
flushed. -/
def Writer.writeBatchBuffered (w : Writer) (last : WriteFault) : BufferedState →
    List (AuditEvent × BufferedFaults) → BufferedState × Except IoError Unit
  | s, [] =>
      let (out, result) := s.out.flush last
      ({ s with out }, result)
  | s, (ev, faults) :: batch =>
      match w.writeEventBuffered blake3 faults s ev with
      | (s, .error e) => (s, .error e)
      | (s, .ok ()) => w.writeBatchBuffered last s batch

end

/-- The end of `run`: the last flush, and the one of the `BufWriter` that is dropped. -/
def BufferedState.finish (flush drop : WriteFault) (s : BufferedState) : BufferedState :=
  { s with out := ((s.out.flush flush).1.flush drop).1 }

/-! ## What a write takes -/

/-- What becomes of a record of which the first bytes `p` are taken: all of them if the write
succeeds, and then they are counted. -/
structure Wrote (blake3 : Bytes → Bytes32) (s : BufferedState) (ev : AuditEvent)
    (res : BufferedState × Except IoError Unit) (p : Bytes) : Prop where
  isPrefix : p <+: (s.through.record ev).bytes
  handed : res.1.out.handed = s.out.handed ++ p
  disk : res.1.out.through = s.out.through.append p
  seq : res.1.seq = (s.through.record ev).seq
  prev : res.1.prev = lineHash blake3 (s.through.record ev).line
  all : res.2 = .ok () →
    p = (s.through.record ev).bytes ∧ res.1.bytes = s.bytes + (s.through.record ev).bytes.length
  failed : res.2 ≠ .ok () →
    p.length < (s.through.record ev).bytes.length ∧ res.1.bytes = s.bytes

/-- A write of the record of an event fails. -/
def BufferedState.Refuses (faults : BufferedFaults) (ev : AuditEvent) (s : BufferedState) : Prop :=
  s.out.Refuses faults.lineFlush faults.line (encode (s.through.record ev).line) ∨
    (s.out.writeAll faults.lineFlush faults.line
      (encode (s.through.record ev).line)).1.Refuses faults.endFlush .none (encode ['\n'])

section

variable {blake3 : Bytes → Bytes32} {w : Writer} {s s' : BufferedState} {faults : BufferedFaults}
  {ev : AuditEvent}

theorem Record.bytes_eq (r : Record) : r.bytes = encode r.line ++ encode ['\n'] := by
  rw [Record.bytes, encode_append]

/-- **The write of a record** takes a first part of its bytes, and succeeds exactly if no write that
it needs fails. -/
theorem write_wrote (blake3 : Bytes → Bytes32) (faults : BufferedFaults) (ev : AuditEvent)
    (s : BufferedState) :
    (∃ p, Wrote blake3 s ev (s.write blake3 faults ev) p) ∧
      ((s.write blake3 faults ev).2 = .ok () ↔ ¬ s.Refuses faults ev) := by
  have hnl : (encode ['\n']).length = 1 := by decide
  obtain ⟨⟨p, hp⟩, hline⟩ := BufWriter.writeAll_taken faults.lineFlush faults.line
    (encode (s.through.record ev).line) s.out
  have hbytes := (s.through.record ev).bytes_eq
  have hlen : (s.through.record ev).bytes.length
      = (encode (s.through.record ev).line).length + 1 := by
    rw [hbytes, List.length_append, hnl]
  have hprefix : encode (s.through.record ev).line <+: (s.through.record ev).bytes := by
    rw [hbytes]
    exact List.prefix_append _ _
  unfold BufferedState.write BufferedState.Refuses
  dsimp only
  rcases hwrite : s.out.writeAll faults.lineFlush faults.line (encode (s.through.record ev).line)
    with ⟨out, e | ⟨⟩⟩
  · rw [hwrite] at hp hline
    have hrefused := (not_congr hline).mp (by simp)
    dsimp only
    refine ⟨⟨p, hp.isPrefix.trans hprefix, hp.handed, hp.through, rfl, rfl, (by simp),
      fun _ ↦ ⟨?_, rfl⟩⟩, ?_⟩
    · have hlt := hp.failed (by simp)
      omega
    · simp [not_not.mp hrefused]
  · rw [hwrite] at hp hline
    have htaken := hline.mp rfl
    obtain rfl := hp.all rfl
    obtain ⟨⟨q, hq⟩, hend⟩ := BufWriter.writeAll_taken faults.endFlush .none (encode ['\n']) out
    have htrans : encode (s.through.record ev).line ++ q <+: (s.through.record ev).bytes := by
      rw [hbytes]
      exact (List.prefix_append_right_inj _).mpr hq.isPrefix
    dsimp only
    rcases hwrite' : out.writeAll faults.endFlush .none (encode ['\n']) with ⟨out', e | ⟨⟩⟩
    · rw [hwrite'] at hq hend
      have hrefused := (not_congr hend).mp (by simp)
      dsimp only
      refine ⟨⟨_, htrans, ?_, ?_, rfl, rfl, (by simp), fun _ ↦ ⟨?_, rfl⟩⟩, ?_⟩
      · rw [hq.handed, hp.handed, List.append_assoc]
      · rw [hq.through, hp.through, Disk.append_append]
      · have hlt := hq.failed (by simp)
        rw [List.length_append]
        omega
      · exact iff_of_false (by simp) fun h ↦ h (.inr (not_not.mp hrefused))
    · rw [hwrite'] at hq hend
      obtain rfl := hq.all rfl
      dsimp only
      refine ⟨⟨_, htrans, ?_, ?_, rfl, rfl, fun _ ↦ ⟨hbytes.symm, ?_⟩, (by simp)⟩, ?_⟩
      · rw [hq.handed, hp.handed, List.append_assoc]
      · rw [hq.through, hp.through, Disk.append_append]
      · rw [hlen]
      · exact iff_of_true rfl (not_or.mpr ⟨htaken, hend.mp rfl⟩)

/-! ## What is seen through the buffer -/

theorem rotate_keeps (w : Writer) (faults : RotateFaults) (s : WriterState) :
    (w.rotate faults s).1.seq = s.seq ∧ (w.rotate faults s).1.prev = s.prev ∧
      ((w.rotate faults s).2 ≠ .ok () → (w.rotate faults s).1.bytes = s.bytes) := by
  rcases rotate_cases w faults s with ⟨-, e, h⟩ | ⟨_, -, -, ⟨-, h⟩ | ⟨-, h⟩⟩
  · rw [h]
    exact ⟨rfl, rfl, fun _ ↦ rfl⟩
  · rw [h]
    exact ⟨rfl, rfl, fun _ ↦ rfl⟩
  · rw [h]
    exact ⟨rfl, rfl, fun hne ↦ absurd rfl hne⟩

/-- The faults of an event as they are seen through the buffer: a flush fails only if there is
something to write. -/
def BufferedFaults.seen (faults : BufferedFaults) (s : BufferedState) (write : Bool) :
    EventFaults where
  flush := decide (faults.flush.Fails s.out.buf)
  rotate := faults.rotate
  write := write

/-- **A rotation** does the same through the buffer, and takes nothing. -/
theorem rotateBuffered_through (w : Writer) (faults : BufferedFaults) (s : BufferedState)
    (write : Bool) :
    ((w.rotateBuffered faults s).1.through, (w.rotateBuffered faults s).2)
        = w.rotateIo (faults.seen s write) s.through ∧
      (w.rotateBuffered faults s).1.out.handed = s.out.handed := by
  have hhanded := s.out.handed_flush faults.flush
  by_cases hfails : faults.flush.Fails s.out.buf
  · have hrotate : w.rotateBuffered faults s
        = ({ s with out := (s.out.flush faults.flush).1 }, .error .failed) := by
      rw [Writer.rotateBuffered, BufWriter.flush_of_fails hfails]
    have hseen : (faults.seen s write).flush = true := decide_eq_true hfails
    rw [hrotate, Writer.rotateIo, if_pos hseen]
    refine ⟨?_, hhanded⟩
    simp only [BufferedState.through, BufWriter.through_flush]
  · have hbuf := BufWriter.buf_flush_of_not_fails hfails
    have hdisk : (s.out.flush faults.flush).1.disk = s.out.through := by
      rw [← BufWriter.through_flush faults.flush s.out, BufWriter.through, hbuf, Disk.append_nil]
    have hthrough : (⟨(s.out.flush faults.flush).1.disk, s.bytes, s.seq, s.prev⟩ : WriterState)
        = s.through := by rw [hdisk, BufferedState.through]
    obtain ⟨hseq, hprev, hbytes⟩ := rotate_keeps w faults.rotate s.through
    rw [Writer.rotateIo, if_neg (by simpa [BufferedFaults.seen] using hfails)]
    unfold Writer.rotateBuffered
    rw [BufWriter.flush_of_not_fails hfails]
    dsimp only
    rw [hthrough]
    change _ = w.rotate faults.rotate s.through ∧ _
    rcases hrotate : w.rotate faults.rotate s.through with ⟨⟨disk, bytes, seq, prev⟩, e | ⟨⟩⟩
    · rw [hrotate] at hseq hprev hbytes
      obtain rfl : seq = s.seq := hseq
      obtain rfl : prev = s.prev := hprev
      obtain rfl : bytes = s.bytes := hbytes (by simp)
      refine ⟨?_, hhanded⟩
      simp only [BufferedState.through, BufWriter.through, hbuf, Disk.append_nil]
    · rw [hrotate] at hseq hprev
      obtain rfl : seq = s.seq := hseq
      obtain rfl : prev = s.prev := hprev
      refine ⟨?_, ?_⟩
      · simp only [BufferedState.through, BufWriter.through, Disk.append_nil]
      · rw [← hhanded]
        simp only [BufWriter.handed, hbuf]

/-- A rotation that can flush leaves an empty buffer, whatever becomes of it. -/
theorem buf_rotateBuffered (w : Writer) (h : ¬ faults.flush.Fails s.out.buf) :
    (w.rotateBuffered faults s).1.out.buf = [] := by
  unfold Writer.rotateBuffered
  rw [BufWriter.flush_of_not_fails h]
  dsimp only
  split
  · exact BufWriter.buf_flush_of_not_fails h
  · rfl

/-- A write that succeeds is one through the buffer. -/
theorem write_through_ok (hok : (s.write blake3 faults ev).2 = .ok ()) :
    (s.write blake3 faults ev).1.through = (s.through.writeIo blake3 false ev).1 := by
  obtain ⟨⟨p, hp⟩, -⟩ := write_wrote blake3 faults ev s
  obtain ⟨rfl, hbytes⟩ := hp.all hok
  rw [BufferedState.through, hp.disk, hbytes, hp.seq, hp.prev]
  rfl

/-- A write that takes all or nothing of a record is one that leaves no part of it. -/
theorem write_through (h : (s.write blake3 faults ev).2 = .ok () ∨
      (s.write blake3 faults ev).1.out.handed = s.out.handed) :
    ∃ fault, (s.write blake3 faults ev).1.through = (s.through.writeIo blake3 fault ev).1 ∧
      ((s.write blake3 faults ev).2 = .ok () ↔ (s.through.writeIo blake3 fault ev).2 = .ok ()) := by
  obtain ⟨⟨p, hp⟩, -⟩ := write_wrote blake3 faults ev s
  by_cases hok : (s.write blake3 faults ev).2 = .ok ()
  · exact ⟨false, write_through_ok hok, iff_of_true hok rfl⟩
  · have hnil : p = [] := by
      have hsame := hp.handed.symm.trans (h.resolve_left hok)
      exact List.append_right_eq_self.mp hsame
    refine ⟨true, ?_, iff_of_false hok (by simp [WriterState.writeIo])⟩
    rw [BufferedState.through, hp.disk, (hp.failed hok).2, hp.seq, hp.prev, hnil, Disk.append_nil]
    rfl

end

/-! ## Events and batches -/

/-- The record of an event is being written: a rotation was not due, or it has succeeded. -/
inductive Writer.Opens (w : Writer) (faults : BufferedFaults) (s : BufferedState) :
    BufferedState → Prop
  | unrotated (h : s.bytes < w.maxBytes) : w.Opens faults s s
  | rotated {s' : BufferedState} (hdue : w.maxBytes ≤ s.bytes)
      (h : w.rotateBuffered faults s = (s', .ok ())) : w.Opens faults s s'

section

variable (blake3 : Bytes → Bytes32)

/-- The record of an event is torn: its write fails after a first part of it was taken. -/
def Writer.Tears (w : Writer) (faults : BufferedFaults) (s : BufferedState) (ev : AuditEvent) :
    Prop :=
  (w.writeEventBuffered blake3 faults s ev).2 ≠ .ok () ∧
    (w.writeEventBuffered blake3 faults s ev).1.out.handed ≠ s.out.handed

/-- A batch tears a record: that of the event with which it ends. -/
def Writer.TearsBatch (w : Writer) : BufferedState → List (AuditEvent × BufferedFaults) → Prop
  | _, [] => False
  | s, (ev, faults) :: batch =>
      w.Tears blake3 faults s ev ∨
        (w.writeEventBuffered blake3 faults s ev).2 = .ok () ∧
          w.TearsBatch (w.writeEventBuffered blake3 faults s ev).1 batch

end

section

variable {blake3 : Bytes → Bytes32} {w : Writer} {s s' : BufferedState} {faults : BufferedFaults}
  {ev : AuditEvent}

/-- **What an event comes to**: a rotation that fails, or the write of its record. -/
theorem writeEventBuffered_cases (blake3 : Bytes → Bytes32) (w : Writer) (faults : BufferedFaults)
    (s : BufferedState) (ev : AuditEvent) :
    (w.maxBytes ≤ s.bytes ∧ ∃ s' e, w.rotateBuffered faults s = (s', .error e) ∧
      w.writeEventBuffered blake3 faults s ev = (s', .error e)) ∨
    ∃ s₁, w.Opens faults s s₁ ∧
      w.writeEventBuffered blake3 faults s ev = s₁.write blake3 faults ev := by
  unfold Writer.writeEventBuffered
  by_cases hdue : w.maxBytes ≤ s.bytes
  · rw [if_pos hdue]
    rcases hrotate : w.rotateBuffered faults s with ⟨s₁, e | ⟨⟩⟩
    · exact .inl ⟨hdue, s₁, e, rfl, rfl⟩
    · exact .inr ⟨s₁, .rotated hdue hrotate, rfl⟩
  · rw [if_neg hdue]
    exact .inr ⟨s, .unrotated (Nat.lt_of_not_le hdue), rfl⟩

/-- Nothing is taken before the record is written. -/
theorem Writer.Opens.handed (h : w.Opens faults s s') : s'.out.handed = s.out.handed := by
  cases h with
  | unrotated => rfl
  | rotated _ hrotate =>
      have hhanded := (rotateBuffered_through w faults s false).2
      rwa [hrotate] at hhanded

/-- **An event** does the same through the buffer, unless it tears its record. -/
theorem writeEventBuffered_through (htears : ¬ w.Tears blake3 faults s ev) :
    ∃ seen, (w.writeEventBuffered blake3 faults s ev).1.through
        = (w.writeEventIo blake3 seen s.through ev).1 ∧
      ((w.writeEventBuffered blake3 faults s ev).2 = .ok () ↔
        (w.writeEventIo blake3 seen s.through ev).2 = .ok ()) := by
  have hwhole := not_and_or.mp htears
  rcases writeEventBuffered_cases blake3 w faults s ev with
    ⟨hdue, s', e, hrotate, hevent⟩ | ⟨s₁, hopens, hevent⟩
  · refine ⟨faults.seen s false, ?_⟩
    have hthrough := (rotateBuffered_through w faults s false).1
    rw [hrotate] at hthrough
    rw [hevent, Writer.writeEventIo, if_pos (show w.maxBytes ≤ s.through.bytes from hdue),
      ← hthrough]
    exact ⟨rfl, iff_of_false (by simp) (by simp)⟩
  · rw [hevent, ← hopens.handed] at hwhole
    obtain ⟨fault, hwrite, hok⟩ := write_through (hwhole.imp not_not.mp not_not.mp)
    refine ⟨faults.seen s fault, ?_⟩
    rw [hevent]
    cases hopens with
    | unrotated hlt =>
        rw [Writer.writeEventIo, if_neg (show ¬ w.maxBytes ≤ s.through.bytes from
          Nat.not_le_of_lt hlt)]
        exact ⟨hwrite, hok⟩
    | rotated hdue hrotate =>
        have hthrough := (rotateBuffered_through w faults s fault).1
        rw [hrotate] at hthrough
        rw [Writer.writeEventIo, if_pos (show w.maxBytes ≤ s.through.bytes from hdue), ← hthrough]
        exact ⟨hwrite, hok⟩

/-- **A batch** does the same through the buffer, unless it tears a record. -/
theorem writeBatchBuffered_through (last : WriteFault) (batch : List (AuditEvent × BufferedFaults))
    (htears : ¬ w.TearsBatch blake3 s batch) :
    ∃ seen : List (AuditEvent × EventFaults), seen.map Prod.fst = batch.map Prod.fst ∧
      (w.writeBatchBuffered blake3 last s batch).1.through
        = (w.writeBatchIo blake3 s.through seen).1 := by
  induction batch generalizing s with
  | nil =>
      refine ⟨[], rfl, ?_⟩
      simp only [Writer.writeBatchBuffered, Writer.writeBatchIo, BufferedState.through,
        BufWriter.through_flush]
  | cons x batch ih =>
      obtain ⟨ev, faults⟩ := x
      obtain ⟨hevent, hbatch⟩ := not_or.mp htears
      obtain ⟨seen, hthrough, hok⟩ := writeEventBuffered_through hevent
      rw [Writer.writeBatchBuffered]
      rcases hres : w.writeEventBuffered blake3 faults s ev with ⟨s', e | ⟨⟩⟩
      · rw [hres] at hthrough hok
        refine ⟨(ev, seen) :: batch.map fun x ↦ (x.1, .none), by simp [Function.comp_def], ?_⟩
        rw [Writer.writeBatchIo]
        rcases hio : w.writeEventIo blake3 seen s.through ev with ⟨t, e' | ⟨⟩⟩
        · rw [hio] at hthrough
          exact hthrough
        · rw [hio] at hok
          simp at hok
      · rw [hres] at hthrough hok hbatch
        obtain ⟨rest, hrest, hthrough'⟩ := ih fun h ↦ hbatch ⟨rfl, h⟩
        refine ⟨(ev, seen) :: rest, by simp [hrest], ?_⟩
        rw [Writer.writeBatchIo]
        rcases hio : w.writeEventIo blake3 seen s.through ev with ⟨t, e' | ⟨⟩⟩
        · rw [hio] at hok
          simp at hok
        · rw [hio] at hthrough
          obtain rfl : s'.through = t := hthrough
          exact hthrough'

/-! ### With rotations alone failing -/

theorem not_refuses_onlyRotate (faults : RotateFaults) (s : BufferedState) (ev : AuditEvent) :
    ¬ s.Refuses (.onlyRotate faults) ev := by
  rintro ((⟨-, h⟩ | ⟨-, h⟩) | ⟨-, h⟩ | ⟨-, h⟩)
  all_goals exact WriteFault.not_fails_none _ h

theorem writeEventBuffered_onlyRotate (w : Writer) (faults : RotateFaults) (s : BufferedState)
    (ev : AuditEvent) :
    ((w.writeEventBuffered blake3 (.onlyRotate faults) s ev).1.through,
        (w.writeEventBuffered blake3 (.onlyRotate faults) s ev).2)
      = w.writeEvent blake3 faults s.through ev ∧
    ((w.writeEventBuffered blake3 (.onlyRotate faults) s ev).2 ≠ .ok () →
      (w.writeEventBuffered blake3 (.onlyRotate faults) s ev).1.out.buf = []) := by
  have hworks : ¬ WriteFault.none.Fails s.out.buf := WriteFault.not_fails_none _
  have hseen : (BufferedFaults.onlyRotate faults).seen s false = .onlyRotate faults := by
    have hflush : decide ((BufferedFaults.onlyRotate faults).flush.Fails s.out.buf) = false :=
      decide_eq_false hworks
    rw [BufferedFaults.seen, hflush]
    rfl
  have hrotate := (rotateBuffered_through w (.onlyRotate faults) s false).1
  have hwrite : ∀ s₁ : BufferedState, (s₁.write blake3 (.onlyRotate faults) ev).2 = .ok () :=
    fun s₁ ↦ (write_wrote blake3 _ ev s₁).2.mpr (not_refuses_onlyRotate faults s₁ ev)
  rw [← writeEventIo_onlyRotate, Writer.writeEventIo]
  rcases writeEventBuffered_cases blake3 w (.onlyRotate faults) s ev with
    ⟨hdue, s', e, hrot, hevent⟩ | ⟨s₁, hopens, hevent⟩
  · rw [hrot, hseen] at hrotate
    have hbuf := @buf_rotateBuffered s (.onlyRotate faults) w hworks
    rw [hrot] at hbuf
    rw [hevent, if_pos (show w.maxBytes ≤ s.through.bytes from hdue), ← hrotate]
    exact ⟨rfl, fun _ ↦ hbuf⟩
  · rw [hevent]
    refine ⟨?_, fun hne ↦ absurd (hwrite s₁) hne⟩
    rw [hwrite s₁, write_through_ok (hwrite s₁)]
    cases hopens with
    | unrotated hlt =>
        rw [if_neg (show ¬ w.maxBytes ≤ s.through.bytes from Nat.not_le_of_lt hlt)]
        rfl
    | rotated hdue hrot =>
        rw [hrot, hseen] at hrotate
        rw [if_pos (show w.maxBytes ≤ s.through.bytes from hdue), ← hrotate]
        rfl

/-- **A batch on a file system where nothing fails but rotations** leaves an empty buffer, and the
files as they are written without one. -/
theorem writeBatchBuffered_onlyRotate (w : Writer) (s : BufferedState)
    (batch : List (AuditEvent × RotateFaults)) :
    ((w.writeBatchBuffered blake3 .none s (batch.map fun x ↦ (x.1, .onlyRotate x.2))).1.through,
        (w.writeBatchBuffered blake3 .none s (batch.map fun x ↦ (x.1, .onlyRotate x.2))).2)
      = w.writeBatch blake3 s.through batch ∧
    (w.writeBatchBuffered blake3 .none s (batch.map fun x ↦ (x.1, .onlyRotate x.2))).1.out.buf
      = [] := by
  induction batch generalizing s with
  | nil =>
      have hworks : ¬ WriteFault.none.Fails s.out.buf := WriteFault.not_fails_none _
      refine ⟨?_, BufWriter.buf_flush_of_not_fails hworks⟩
      refine Prod.ext ?_ (if_neg hworks)
      simp only [List.map_nil, Writer.writeBatchBuffered, BufferedState.through,
        BufWriter.through_flush, Writer.writeBatch]
  | cons x batch ih =>
      obtain ⟨ev, faults⟩ := x
      obtain ⟨hevent, hbuf⟩ := @writeEventBuffered_onlyRotate blake3 w faults s ev
      rw [List.map_cons, Writer.writeBatchBuffered, Writer.writeBatch, ← hevent]
      rcases hres : w.writeEventBuffered blake3 (.onlyRotate faults) s ev with ⟨s', e | ⟨⟩⟩
      · rw [hres] at hbuf
        exact ⟨rfl, hbuf (by simp)⟩
      · exact ih s'

/-! ## The open file -/

theorem open_shift {Q : Bytes → Prop} (faults : RotateFaults) {k : Nat} {d : Disk Nat}
    (h : d.Open Q) : (shift faults k d).Open Q := by
  induction k generalizing d with
  | zero => exact h
  | succ k ih => exact ih (h.rename _ _ _)

/-- **A rotation** keeps what holds of the open file, if it holds of an empty one. -/
theorem open_rotate {Q : Bytes → Prop} {t : WriterState} (h : t.disk.Open Q) (hnil : Q [])
    (faults : RotateFaults) : (w.rotate faults t).1.disk.Open Q := by
  have hroom : (w.makeRoom faults t.disk).Open Q := open_shift faults (h.remove _ _)
  rcases rotate_cases w faults t with ⟨-, e, he⟩ | ⟨file, -, hfile, ⟨-, he⟩ | ⟨-, he⟩⟩
  · rw [he]
    exact hroom
  · rw [he]
    exact hroom.rename _ _ _
  · rw [he]
    intro p file' hhandle hfile'
    obtain rfl := Option.some.inj hhandle
    dsimp only at hfile'
    rw [files_rotate_ok hfile, if_pos rfl] at hfile'
    exact Option.some.inj hfile' ▸ hnil

variable {old : Bytes}

theorem tails_rotateBuffered (h : s.out.Tails old) :
    (w.rotateBuffered faults s).1.out.Tails old := by
  have hflush := h.flush faults.flush
  have hrotate : (w.rotate faults.rotate
      ⟨(s.out.flush faults.flush).1.disk, s.bytes, s.seq, s.prev⟩).1.disk.Open
        (· <:+ old ++ (s.out.flush faults.flush).1.sent) := by
    refine open_rotate ?_ ?_ _
    · exact hflush
    · exact List.nil_suffix
  unfold Writer.rotateBuffered
  rcases hres : s.out.flush faults.flush with ⟨out, e | ⟨⟩⟩
  · rw [hres] at hflush
    exact hflush
  · rw [hres] at hrotate
    dsimp only at hrotate ⊢
    split
    · rename_i t e heq
      rw [heq] at hrotate
      exact hrotate
    · rename_i t heq
      rw [heq] at hrotate
      exact hrotate

theorem tails_write (h : s.out.Tails old) : (s.write blake3 faults ev).1.out.Tails old := by
  have hline := h.writeAll faults.lineFlush faults.line (encode (s.through.record ev).line)
  unfold BufferedState.write
  dsimp only
  rcases hwrite : s.out.writeAll faults.lineFlush faults.line (encode (s.through.record ev).line)
    with ⟨out, e | ⟨⟩⟩
  · rw [hwrite] at hline
    exact hline
  · rw [hwrite] at hline
    have hend := BufWriter.Tails.writeAll hline faults.endFlush .none (encode ['\n'])
    dsimp only at hend ⊢
    split
    · rename_i heq
      rw [heq] at hend
      exact hend
    · rename_i heq
      rw [heq] at hend
      exact hend

theorem tails_writeEventBuffered (h : s.out.Tails old) :
    (w.writeEventBuffered blake3 faults s ev).1.out.Tails old := by
  rcases writeEventBuffered_cases blake3 w faults s ev with
    ⟨-, s', e, hrotate, hevent⟩ | ⟨s₁, hopens, hevent⟩
  · have hs' := @tails_rotateBuffered w s faults old h
    rw [hrotate] at hs'
    rw [hevent]
    exact hs'
  · rw [hevent]
    cases hopens with
    | unrotated => exact tails_write h
    | rotated _ hrotate =>
        have hs₁ := @tails_rotateBuffered w s faults old h
        rw [hrotate] at hs₁
        exact tails_write hs₁

/-- **The open file** ends with the last of what was written to files. -/
theorem tails_writeBatchBuffered (h : s.out.Tails old) (last : WriteFault)
    (batch : List (AuditEvent × BufferedFaults)) :
    (w.writeBatchBuffered blake3 last s batch).1.out.Tails old := by
  induction batch generalizing s with
  | nil => exact h.flush last
  | cons x batch ih =>
      obtain ⟨ev, faults⟩ := x
      have hevent := @tails_writeEventBuffered blake3 w s faults ev old h
      rw [Writer.writeBatchBuffered]
      rcases hres : w.writeEventBuffered blake3 faults s ev with ⟨s', e | ⟨⟩⟩
      · rw [hres] at hevent
        exact hevent
      · rw [hres] at hevent
        exact ih hevent

end

/-! ## A record that is longer than the buffer -/

/-- A text that fills its field stands in the line twice, so that the line is too long. -/
theorem capacity_le_longEvent {r : Record} (h : r.event = longEvent) :
    BufWriter.capacity ≤ (encode r.line).length := by
  have hplain : ∀ c ∈ longMethod.toList, Json.escapeChar c = [c] := by
    intro c hc
    rw [longMethod, String.toList_ofList] at hc
    rw [List.eq_of_mem_replicate hc]
    decide
  have hsize : ('😀' : Char).utf8Size = 4 := by decide
  let front : List (String × Json) :=
    [("seq", .uint r.seq), ("prev", .str r.prev.text), ("schema_version", .uint 1),
      ("ts_wall", .uint 1700000000), ("kind", .str "mutation"), ("severity", .str "notice"),
      ("decision", .str "ok")]
  have hmembers : r.members
      = front ++ [("subject", .str longMethod), ("detail", .str longMethod)] := by
    rw [Record.members, h]
    simp [AuditEvent.members, longEvent, AuditEvent.new, AuditEvent.withDetail,
      AuditEvent.optional, sanitize_longMethod, front, schemaVersion, AuditKind.text,
      Severity.text, defaultSeverity, AuditDecision.text]
  have hline : r.line = '{' :: (Json.renderObj front ++ ',' ::
      Json.renderObj [("subject", .str longMethod), ("detail", .str longMethod)]) ++ ['}'] := by
    rw [Record.line, Record.json, hmembers, Json.render,
      Json.renderObj_append (by simp [front]) (by simp)]
  have hlen : byteLen (Json.renderObj [("subject", .str longMethod), ("detail", .str longMethod)])
      ≥ 8192 := by
    simp only [Json.renderObj, Json.renderMember, Json.render, Json.renderStr_of_plain hplain,
      byteLen_append, byteLen_cons, byteLen_nil]
    simp only [longMethod, String.toList_ofList, byteLen_replicate, hsize, maxFieldLen]
    omega
  rw [length_encode, hline]
  simp only [List.cons_append, byteLen_cons, byteLen_append]
  have hcapacity : BufWriter.capacity = 8192 := by decide
  omega

/-- The faults of a write that fails at its first byte. -/
def BufferedFaults.lineFails : BufferedFaults := { BufferedFaults.none with line := .after 0 }

/-- **Its write may fail and leave nothing**, as a write does in the module
`Vaiexia.Audit.IoErrors`. -/
theorem write_longEvent (blake3 : Bytes → Bytes32) (s : BufferedState) :
    (s.write blake3 .lineFails longEvent).2 ≠ .ok () ∧
      (s.write blake3 .lineFails longEvent).1.through
        = (s.through.writeIo blake3 true longEvent).1 := by
  obtain ⟨out, hwrite, hthrough⟩ := s.out.writeAll_after_zero
    (capacity_le_longEvent (r := s.through.record longEvent) rfl)
  have hline : s.out.writeAll BufferedFaults.lineFails.lineFlush BufferedFaults.lineFails.line
      (encode (s.through.record longEvent).line) = (out, .error .failed) := hwrite
  simp only [BufferedState.write, hline]
  refine ⟨by simp, ?_⟩
  simp only [BufferedState.through, hthrough]
  rfl

end Vaiexia.Audit
