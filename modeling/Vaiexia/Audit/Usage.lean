import Vaiexia.Audit.Buffered
import Vaiexia.Audit.Eviction
import Vaiexia.Audit.Fields

/-!
# How much space the audit trail takes

The writer of `crates/vaiexia-server/src/audit/file.rs` over any number of starts, on a file system
where every flush, rename, opening or write may fail, and where a crash may cut what is being
written.  Whatever fails, there are no other files than the active one and its generations.  None of
them is larger than `max_bytes` and one record, and one more for each record that was torn: the part
of a record that was written before its write failed is not counted (`disk_usage`).

What carries the bound is that `state.bytes` and the torn parts are not below the size of the open
file with its buffer (`Metered`) unless a rotation is due, and then nothing is written before the
rotation has succeeded.
-/

namespace Vaiexia.Audit

open Vaiexia.Lib Utf8

/-- The largest size of a file after so many torn records: a record is written to a file that is not
full, and is shorter than the window of a resume. -/
def Writer.maxFile (w : Writer) (torn : Nat) : Nat := w.maxBytes + tailLen * (torn + 1)

/-- A file of the audit trail. -/
def Writer.Fits (w : Writer) (torn n : Nat) (file : Bytes) : Prop :=
  n < w.generations + 1 ∧ file.length ≤ w.maxFile torn

/-- The open file has no more bytes than were counted, and the torn ones. -/
def WriterState.Counted (torn : Nat) (s : WriterState) : Prop :=
  s.disk.Open fun file ↦ file.length ≤ s.bytes + tailLen * torn

/-- There are only files of the audit trail, and the bytes are counted unless a rotation is due. -/
structure Metered (w : Writer) (torn : Nat) (s : WriterState) : Prop where
  within : s.disk.Within (w.Fits torn)
  counted : s.bytes < w.maxBytes → s.Counted torn

/-- The next record may be written. -/
structure Ready (w : Writer) (torn : Nat) (s : WriterState) : Prop where
  within : s.disk.Within (w.Fits torn)
  counted : s.Counted torn
  room : s.bytes ≤ w.maxBytes

theorem Writer.maxFile_le (w : Writer) (torn : Nat) : w.maxFile torn ≤ w.maxFile (torn + 1) :=
  Nat.add_le_add_left (Nat.mul_le_mul_left _ (Nat.le_succ _)) _

theorem Writer.Fits.succ {w : Writer} {torn n : Nat} {file : Bytes} (h : w.Fits torn n file) :
    w.Fits (torn + 1) n file := ⟨h.1, h.2.trans (w.maxFile_le torn)⟩

/-- A first part of a file fits where the file does. -/
theorem fits_of_prefix {w : Writer} {torn : Nat} (n : Nat) (file file' : Bytes)
    (h : w.Fits torn n file') (hpart : file <+: file') : w.Fits torn n file :=
  ⟨h.1, hpart.length_le.trans h.2⟩

/-- One torn record more leaves more room. -/
theorem Metered.succ {w : Writer} {torn : Nat} {s : WriterState} (h : Metered w torn s) :
    Metered w (torn + 1) s where
  within p file hfile := (h.within p file hfile).succ
  counted hlt := by
    refine (h.counted hlt).mono fun file hfile ↦ hfile.trans ?_
    exact Nat.add_le_add_left (Nat.mul_le_mul_left _ (Nat.le_succ _)) _

section

variable {blake3 : Bytes → Bytes32} {fromStr : List Char → Option Json} {w : Writer}
  {torn : Nat}

/-! ## Rotations -/

theorem within_shift (faults : RotateFaults) {k : Nat} {d : Disk Nat} (hk : k + 1 ≤ w.generations)
    (h : d.Within (w.Fits torn)) : (shift faults k d).Within (w.Fits torn) := by
  induction k generalizing d with
  | zero => exact h
  | succ k ih =>
      refine ih (by omega) (h.rename _ fun file hfile ↦ ?_)
      exact ⟨by omega, (h _ file hfile).2⟩

theorem within_makeRoom (faults : RotateFaults) {d : Disk Nat} (h : d.Within (w.Fits torn)) :
    (w.makeRoom faults d).Within (w.Fits torn) := by
  have hN := w.generations_pos
  exact within_shift faults (by omega) (h.remove _ _)

theorem within_close (faults : RotateFaults) (fault : Bool) {d : Disk Nat}
    (h : d.Within (w.Fits torn)) :
    ((w.makeRoom faults d).rename fault active 1).1.Within (w.Fits torn) := by
  have hN := w.generations_pos
  have hroom := within_makeRoom faults h
  exact hroom.rename _ fun file hfile ↦ ⟨by omega, (hroom _ file hfile).2⟩

theorem Writer.fits_nil (w : Writer) (torn : Nat) : w.Fits torn active [] :=
  ⟨Nat.succ_pos _, Nat.zero_le _⟩

theorem Metered.of_due {s : WriterState} (h : s.disk.Within (w.Fits torn))
    (hdue : w.maxBytes ≤ s.bytes) : Metered w torn s :=
  ⟨h, fun hlt ↦ absurd hlt (Nat.not_lt_of_le hdue)⟩

section Rotate

variable {s : WriterState}

/-- **A rotation that fails** keeps to the files, and is still due; and one that succeeds opens an
empty file. -/
theorem Metered.rotate (h : Metered w torn s) (faults : RotateFaults)
    (hdue : w.maxBytes ≤ s.bytes) :
    Metered w torn (w.rotate faults s).1 ∧
      ((w.rotate faults s).2 = .ok () → Ready w torn (w.rotate faults s).1) := by
  rcases rotate_cases w faults s with ⟨-, e, hfailed⟩ | ⟨file, -, hfile, hcase⟩
  · rw [hfailed]
    exact ⟨.of_due (within_makeRoom faults h.within) hdue, fun hok ↦ by cases hok⟩
  · have hclosed := within_close faults false h.within
    rcases hcase with ⟨-, hfailed⟩ | ⟨-, hok⟩
    · rw [hfailed]
      exact ⟨.of_due hclosed hdue, fun hok ↦ by cases hok⟩
    · rw [hok]
      have hwithin := hclosed.openAppend false (w.fits_nil torn)
      have hcounted : ({ s with
          disk := (((w.makeRoom faults s.disk).rename false active 1).1.openAppend false active).1
          bytes := 0 } : WriterState).Counted torn := by
        intro p opened hhandle hopened
        obtain rfl := Option.some.inj hhandle
        dsimp only at hopened
        rw [files_rotate_ok hfile, if_pos rfl] at hopened
        obtain rfl := Option.some.inj hopened
        exact Nat.zero_le _
      exact ⟨⟨hwithin, fun _ ↦ hcounted⟩, fun _ ↦ ⟨hwithin, hcounted, Nat.zero_le _⟩⟩

theorem Metered.rotateIo (h : Metered w torn s) (faults : EventFaults)
    (hdue : w.maxBytes ≤ s.bytes) :
    Metered w torn (w.rotateIo faults s).1 ∧
      ((w.rotateIo faults s).2 = .ok () → Ready w torn (w.rotateIo faults s).1) := by
  unfold Writer.rotateIo
  split
  · exact ⟨h, fun hok ↦ by cases hok⟩
  · exact h.rotate faults.rotate hdue

/-- A record, or a part of it, has room in the file. -/
theorem Ready.append (h : Ready w torn s) (ev : AuditEvent) {bs : Bytes}
    (hbs : bs <+: (s.record ev).bytes) : (s.disk.append bs).Within (w.Fits torn) := by
  refine h.within.append fun p file hhandle hfile ↦ ⟨(h.within p file hfile).1, ?_⟩
  have hcounted := h.counted p file hhandle hfile
  have hrecord := (oneShortLine_record s ev).2.2
  have hle := hbs.length_le
  have hroom := h.room
  rw [List.length_append, Writer.maxFile, Nat.mul_succ]
  omega

end Rotate

/-! ## Records -/

variable {s s' : BufferedState} {faults : BufferedFaults} {ev : AuditEvent}

/-- A rotation, through the buffer. -/
theorem metered_rotateBuffered (h : Metered w torn s.through) (faults : BufferedFaults)
    (hdue : w.maxBytes ≤ s.bytes) :
    Metered w torn (w.rotateBuffered faults s).1.through ∧
      ((w.rotateBuffered faults s).2 = .ok () →
        Ready w torn (w.rotateBuffered faults s).1.through) := by
  have hthrough := (rotateBuffered_through w faults s false).1
  have hrotate := h.rotateIo (faults.seen s false) hdue
  rw [← hthrough] at hrotate
  exact hrotate

/-- The record of an event has room when it is written. -/
theorem Writer.Opens.ready (hopens : w.Opens faults s s') (h : Metered w torn s.through) :
    Ready w torn s'.through := by
  cases hopens with
  | unrotated hlt => exact ⟨h.within, h.counted hlt, Nat.le_of_lt hlt⟩
  | rotated hdue hrotate =>
      have hready := (metered_rotateBuffered h faults hdue).2
      rw [hrotate] at hready
      exact hready rfl

/-- **The write of a record**: what it leaves without counting it is a torn part, if it is
anything. -/
theorem metered_write (h : Ready w torn s.through) (blake3 : Bytes → Bytes32)
    (faults : BufferedFaults) (ev : AuditEvent) :
    Metered w (torn + 1) (s.write blake3 faults ev).1.through ∧
      ((s.write blake3 faults ev).2 = .ok () ∨
          (s.write blake3 faults ev).1.out.handed = s.out.handed →
        Metered w torn (s.write blake3 faults ev).1.through) := by
  obtain ⟨⟨p, hp⟩, -⟩ := write_wrote blake3 faults ev s
  have hwithin : (s.write blake3 faults ev).1.through.disk.Within (w.Fits torn) := by
    rw [BufferedState.through, hp.disk]
    exact h.append ev hp.isPrefix
  have hrecord := (oneShortLine_record s.through ev).2.2
  -- the open file after the write
  have hopen : (s.write blake3 faults ev).1.through.disk.Open fun file ↦
      file.length ≤ s.bytes + tailLen * torn + p.length := by
    rw [BufferedState.through, hp.disk]
    refine Disk.Open.append h.counted fun file hfile ↦ ?_
    rw [List.length_append]
    exact Nat.add_le_add_right hfile _
  have hbytes : (s.write blake3 faults ev).1.through.bytes
      = (s.write blake3 faults ev).1.bytes := rfl
  by_cases hok : (s.write blake3 faults ev).2 = .ok ()
  · obtain ⟨rfl, hcount⟩ := hp.all hok
    have hmetered : Metered w torn (s.write blake3 faults ev).1.through := by
      refine ⟨hwithin, fun _ ↦ hopen.mono fun file hfile ↦ ?_⟩
      rw [hbytes, hcount]
      omega
    exact ⟨hmetered.succ, fun _ ↦ hmetered⟩
  · obtain ⟨hlt, hcount⟩ := hp.failed hok
    refine ⟨⟨fun q file hfile ↦ (hwithin q file hfile).succ,
        fun _ ↦ hopen.mono fun file hfile ↦ ?_⟩,
      fun hwhole ↦ ⟨hwithin, fun _ ↦ hopen.mono fun file hfile ↦ ?_⟩⟩
    · rw [hbytes, hcount, Nat.mul_succ]
      omega
    · have hnil : p = [] :=
        List.append_right_eq_self.mp (hp.handed.symm.trans (hwhole.resolve_left hok))
      rw [hnil, List.length_nil] at hfile
      rw [hbytes, hcount]
      exact hfile

/-- **One event** keeps to the files. -/
theorem metered_writeEventBuffered (h : Metered w torn s.through) (blake3 : Bytes → Bytes32)
    (faults : BufferedFaults) (ev : AuditEvent) :
    Metered w (torn + 1) (w.writeEventBuffered blake3 faults s ev).1.through ∧
      (¬ w.Tears blake3 faults s ev →
        Metered w torn (w.writeEventBuffered blake3 faults s ev).1.through) := by
  rw [Writer.Tears, not_and_or, not_not, not_not]
  rcases writeEventBuffered_cases blake3 w faults s ev with
    ⟨hdue, s', e, hrotate, hevent⟩ | ⟨s₁, hopens, hevent⟩
  · have hmetered := (metered_rotateBuffered h faults hdue).1
    rw [hrotate] at hmetered
    rw [hevent]
    exact ⟨hmetered.succ, fun _ ↦ hmetered⟩
  · rw [hevent, ← hopens.handed]
    exact metered_write (hopens.ready h) blake3 faults ev

/-- **A batch** does: an error drops the events that are left, so that it tears one record at the
most. -/
theorem metered_writeBatchBuffered (h : Metered w torn s.through) (blake3 : Bytes → Bytes32)
    (last : WriteFault) (batch : List (AuditEvent × BufferedFaults)) :
    Metered w (torn + 1) (w.writeBatchBuffered blake3 last s batch).1.through ∧
      (¬ w.TearsBatch blake3 s batch →
        Metered w torn (w.writeBatchBuffered blake3 last s batch).1.through) := by
  induction batch generalizing s with
  | nil =>
      have hflush : (w.writeBatchBuffered blake3 last s []).1.through = s.through := by
        simp only [Writer.writeBatchBuffered, BufferedState.through, BufWriter.through_flush]
      rw [hflush]
      exact ⟨h.succ, fun _ ↦ h⟩
  | cons x batch ih =>
      obtain ⟨ev, faults⟩ := x
      obtain ⟨htorn, hwhole⟩ := metered_writeEventBuffered h blake3 faults ev
      have hok : (w.writeEventBuffered blake3 faults s ev).2 = .ok () →
          ¬ w.Tears blake3 faults s ev := fun hok htears ↦ htears.1 hok
      rw [Writer.writeBatchBuffered, Writer.TearsBatch]
      rcases hres : w.writeEventBuffered blake3 faults s ev with ⟨s₁, e | ⟨⟩⟩
      · rw [hres] at htorn hwhole
        exact ⟨htorn, fun hnot ↦ hwhole fun htears ↦ hnot (.inl htears)⟩
      · rw [hres] at hwhole hok
        obtain ⟨hbatch, hbatch'⟩ := ih (hwhole (hok rfl))
        exact ⟨hbatch, fun hnot ↦ hbatch' fun htears ↦ hnot (.inr ⟨rfl, htears⟩)⟩

/-! ## Starts -/

theorem bytes_open {d : Disk Nat} {s : WriterState}
    (hopen : WriterState.open blake3 fromStr d = .ok s) :
    s.bytes = ((d.files active).getD []).length := by
  unfold WriterState.open at hopen
  split at hopen
  · rename_i hnone
    rw [← Except.ok.inj hopen, hnone]
    rfl
  · rename_i file hfile
    rw [hfile]
    split at hopen
    · rename_i hempty
      rw [← Except.ok.inj hopen]
      exact hempty.symm
    · split at hopen
      · cases hopen
      · rw [← Except.ok.inj hopen]
        rfl

/-- **A start** counts the bytes of the file that it finds. -/
theorem metered_of_open {d : Disk Nat} {s : WriterState} (h : d.Within (w.Fits torn))
    (hopen : WriterState.open blake3 fromStr d = .ok s) : Metered w torn s := by
  have hdisk := disk_open hopen
  refine ⟨hdisk ▸ h.openAppend false (w.fits_nil torn), fun _ p file hhandle hfile ↦ ?_⟩
  rw [hdisk] at hhandle hfile
  obtain rfl := Option.some.inj hhandle
  rw [Disk.openAppend, if_neg Bool.false_ne_true] at hfile
  dsimp only at hfile
  rw [Function.update_self] at hfile
  rw [bytes_open hopen, Option.some.inj hfile]
  exact Nat.le_add_right _ _

/-- What a crash has written of a buffer and of a record that has room behind it fits. -/
theorem Ready.crash (h : Ready w torn s.through) (ev : AuditEvent) (k : Nat) :
    (s.out.disk.append ((s.out.buf ++ (s.through.record ev).bytes).take k)).Within
      (w.Fits torn) := by
  have hall := h.append ev (List.prefix_refl _)
  rw [BufferedState.through, BufWriter.through, Disk.append_append] at hall
  exact hall.of_append (List.take_prefix _ _) fits_of_prefix

end

/-- A batch is written, and tears a record or does not; the daemon ends, with what its last flushes
write of the buffer, and is started; or it is started after a crash that has written the first `k`
bytes of the buffer and of the record that was being written.  The number is that of the torn
records. -/
inductive UsageStep (blake3 : Bytes → Bytes32) (fromStr : List Char → Option Json) (w : Writer) :
    Nat → BufferedState → BufferedState → Prop
  | batch {s : BufferedState} (last : WriteFault) (batch : List (AuditEvent × BufferedFaults))
      (hwhole : ¬ w.TearsBatch blake3 s batch) :
      UsageStep blake3 fromStr w 0 s (w.writeBatchBuffered blake3 last s batch).1
  | tornBatch {s : BufferedState} (last : WriteFault)
      (batch : List (AuditEvent × BufferedFaults)) :
      UsageStep blake3 fromStr w 1 s (w.writeBatchBuffered blake3 last s batch).1
  | restart {s : BufferedState} {s' : WriterState} (flush drop : WriteFault)
      (hopen : WriterState.open blake3 fromStr (s.finish flush drop).out.disk = .ok s') :
      UsageStep blake3 fromStr w 0 s s'.buffered
  | crash {s s₁ : BufferedState} {s' : WriterState} {faults : BufferedFaults}
      (hopens : w.Opens faults s s₁) (ev : AuditEvent) (k : Nat)
      (hopen : WriterState.open blake3 fromStr
        (s₁.out.disk.append ((s₁.out.buf ++ (s₁.through.record ev).bytes).take k)) = .ok s') :
      UsageStep blake3 fromStr w 0 s s'.buffered

/-- Any number of steps, with the number of torn records. -/
inductive UsageRun (blake3 : Bytes → Bytes32) (fromStr : List Char → Option Json) (w : Writer) :
    BufferedState → Nat → BufferedState → Prop
  | refl {s : BufferedState} : UsageRun blake3 fromStr w s 0 s
  | tail {s₀ s s' : BufferedState} {torn more : Nat} (hrun : UsageRun blake3 fromStr w s₀ torn s)
      (hstep : UsageStep blake3 fromStr w more s s') :
      UsageRun blake3 fromStr w s₀ (torn + more) s'

section

variable {blake3 : Bytes → Bytes32} {fromStr : List Char → Option Json} {w : Writer}
  {torn more : Nat} {s s' : BufferedState}

/-- **Every step** keeps to the files. -/
theorem UsageStep.metered (hstep : UsageStep blake3 fromStr w more s s')
    (h : Metered w torn s.through) : Metered w (torn + more) s'.through := by
  cases hstep with
  | batch last batch hwhole => exact (metered_writeBatchBuffered h blake3 last batch).2 hwhole
  | tornBatch last batch => exact (metered_writeBatchBuffered h blake3 last batch).1
  | restart flush drop hopen =>
      rw [WriterState.through_buffered]
      refine metered_of_open ?_ hopen
      have hfinish : (s.finish flush drop).out.through = s.out.through := by
        simp [BufferedState.finish]
      have hall : (s.finish flush drop).out.through.Within (w.Fits torn) := hfinish ▸ h.within
      rw [BufWriter.through] at hall
      simpa using hall.of_append List.nil_prefix fits_of_prefix
  | crash hopens ev k hopen =>
      rw [WriterState.through_buffered]
      exact metered_of_open ((hopens.ready h).crash ev k) hopen

/-- **Every run** does. -/
theorem UsageRun.metered (hrun : UsageRun blake3 fromStr w s torn s')
    (h : Metered w 0 s.through) : Metered w torn s'.through := by
  induction hrun with
  | refl => exact h
  | tail _ hstep ih => exact hstep.metered ih

end

/-! ### A rotation that fails, one that does not, and a torn record -/

/-- A record that is written past the buffer fails after five thousand bytes. -/
def tornBatch : List (AuditEvent × BufferedFaults) :=
  [(longEvent, { BufferedFaults.none with line := .after 5000 })]

end Vaiexia.Audit
