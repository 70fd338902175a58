import Vaiexia.Lib.Disk
import Vaiexia.Audit.Verify

/-!
# The audit writer

`FileAuditWriter` and `WriterState` of `crates/vaiexia-server/src/audit/file.rs`.  The files are
named by numbers: `active` is `audit.jsonl` and `n` is the generation `audit.jsonl.n`.

A rotation is a cascade of renames of which all but the last are allowed to fail without notice;
`RotateFaults` says which of its operations fail.  Writes go through to the file here: the buffer
of the `BufWriter` is flushed before every rename and at the end of every batch, so what it holds
back is never seen under another name.  `Vaiexia.Audit.Buffered` has the writer with that buffer,
and that it is this one as long as no flush and no write fails (`writeBatchBuffered_onlyRotate`).
-/

namespace Vaiexia.Audit

open Vaiexia.Lib Utf8

/-- `FileAuditWriter`, as far as it says when to rotate and what to keep. -/
structure Writer where
  maxBytes : Nat
  generations : Nat
  generations_pos : 1 ≤ generations

/-- `FileAuditWriter::new`: at least one generation is kept. -/
def Writer.new (maxBytes generations : Nat) : Writer where
  maxBytes := maxBytes
  generations := max generations 1
  generations_pos := Nat.le_max_right _ _

/-- `audit.jsonl`. -/
def active : Nat := 0

/-- `WriterState`, with the directory behind its open file. -/
structure WriterState where
  disk : Disk Nat
  bytes : Nat
  seq : Nat
  prev : Link

/-- Which file operations of one rotation fail. -/
structure RotateFaults where
  remove : Bool
  /-- The renaming of generation `n` to `n + 1`. -/
  shift : Nat → Bool
  close : Bool
  reopen : Bool

/-- A rotation on a file system that works. -/
def RotateFaults.none : RotateFaults where
  remove := false
  shift := fun _ ↦ false
  close := false
  reopen := false

/-! ## Rotation -/

/-- The renaming of the generations `k`, …, `1`, each to the next number; errors are ignored. -/
def shift (faults : RotateFaults) : Nat → Disk Nat → Disk Nat
  | 0, d => d
  | n + 1, d => shift faults n (d.rename (faults.shift (n + 1)) (n + 1) (n + 2)).1

/-- The part of `rotate` whose errors are ignored: the oldest generation is removed and the
others are renamed. -/
def Writer.makeRoom (w : Writer) (faults : RotateFaults) (d : Disk Nat) : Disk Nat :=
  shift faults (w.generations - 1) (d.remove faults.remove w.generations).1

/-- `FileAuditWriter::rotate`. -/
def Writer.rotate (w : Writer) (faults : RotateFaults) (s : WriterState) :
    WriterState × Except IoError Unit :=
  match (w.makeRoom faults s.disk).rename faults.close active 1 with
  | (d, .error e) => ({ s with disk := d }, .error e)
  | (d, .ok ()) =>
      match d.openAppend faults.reopen active with
      | (d, .error e) => ({ s with disk := d }, .error e)
      | (d, .ok ()) => ({ s with disk := d, bytes := 0 }, .ok ())

/-! ## Writing -/

section

variable (blake3 : Bytes → Bytes32)

/-- The record the writer makes of the next event. -/
def WriterState.record (s : WriterState) (ev : AuditEvent) : Record where
  seq := (s.seq + 1) % 2 ^ 64
  prev := s.prev
  event := ev

/-- The bytes a record takes in a file: its line and a newline. -/
def Record.bytes (r : Record) : Bytes := encode (r.line ++ ['\n'])

/-- Writing one record to the open file. -/
def WriterState.write (s : WriterState) (ev : AuditEvent) : WriterState where
  disk := s.disk.append (s.record ev).bytes
  bytes := s.bytes + (s.record ev).bytes.length
  seq := (s.record ev).seq
  prev := lineHash blake3 (s.record ev).line

/-- The body of the loop of `write_batch`. -/
def Writer.writeEvent (w : Writer) (faults : RotateFaults) (s : WriterState) (ev : AuditEvent) :
    WriterState × Except IoError Unit :=
  if w.maxBytes ≤ s.bytes then
    match w.rotate faults s with
    | (s, .error e) => (s, .error e)
    | (s, .ok ()) => (s.write blake3 ev, .ok ())
  else (s.write blake3 ev, .ok ())

/-- `FileAuditWriter::write_batch`.  Every event comes with the faults of the rotation it may
cause; an error drops the rest of the batch. -/
def Writer.writeBatch (w : Writer) : WriterState → List (AuditEvent × RotateFaults) →
    WriterState × Except IoError Unit
  | s, [] => (s, .ok ())
  | s, (ev, faults) :: batch =>
      match w.writeEvent blake3 faults s ev with
      | (s, .error e) => (s, .error e)
      | (s, .ok ()) => w.writeBatch s batch

/-- The loop of `FileAuditWriter::run`: batch after batch, whatever became of the one before. -/
def Writer.writeBatches (w : Writer) (s : WriterState)
    (batches : List (List (AuditEvent × RotateFaults))) : WriterState :=
  batches.foldl (fun s batch ↦ (w.writeBatch blake3 s batch).1) s

/-! ## Opening -/

variable (fromStr : List Char → Option Json)

/-- How many bytes of the end of a file are read: 64 KiB. -/
def tailLen : Nat := 64 * 1024

/-- `last_line_meta`: link and sequence number of the last non-empty line. -/
def lastLineMeta (file : Bytes) : Except IoError (Option (Link × Nat)) :=
  match decode (file.drop (file.length - min file.length tailLen)) with
  | none => .error .invalidData
  | some buf =>
      .ok <| ((Text.lines buf).filter fun l ↦ !l.isEmpty).getLast?.map fun l ↦
        (lineHash blake3 l, ((fromStr l).bind fun v ↦ (v.getD "seq").asU64).getD 0)

/-- `WriterState::open`, on a file system that works. -/
def WriterState.open (d : Disk Nat) : Except IoError WriterState :=
  let start (bytes : Nat) (last : Link × Nat) : WriterState :=
    { disk := (d.openAppend false active).1, bytes := bytes, seq := last.2, prev := last.1 }
  match d.files active with
  | none => .ok (start 0 (genesis, 0))
  | some file =>
      if file.length = 0 then .ok (start 0 (genesis, 0))
      else
        match lastLineMeta blake3 fromStr file with
        | .error e => .error e
        | .ok last => .ok (start file.length (last.getD (genesis, 0)))

/-- `FileAuditWriter::run`: the batches are written when the file can be opened, and otherwise
received and dropped. -/
def Writer.run (w : Writer) (d : Disk Nat) (batches : List (List (AuditEvent × RotateFaults))) :
    Disk Nat :=
  match WriterState.open blake3 fromStr d with
  | .error _ => d
  | .ok s => (w.writeBatches blake3 s batches).disk

end

/-! ## What a rotation does to the files -/

/-- Generation `n` is there and its renaming does not fail. -/
def RotateFaults.Moves (faults : RotateFaults) (files : Nat → Option Bytes) (n : Nat) : Prop :=
  faults.shift n = false ∧ (files n).isSome

instance (faults : RotateFaults) (files : Nat → Option Bytes) (n : Nat) :
    Decidable (faults.Moves files n) := inferInstanceAs (Decidable (_ ∧ _))

/-- One renaming of the cascade. -/
theorem files_rename_generation (faults : RotateFaults) (k : Nat) (d : Disk Nat) (n : Nat) :
    (d.rename (faults.shift k) k (k + 1)).1.files n =
      if n = k + 1 ∧ faults.Moves d.files k then d.files k
      else if n = k ∧ faults.Moves d.files k then none
      else d.files n := by
  rw [Disk.files_rename]
  change (if faults.Moves d.files k then (_ : Nat → Option Bytes) else _) n = _
  by_cases hmoves : faults.Moves d.files k
  · rw [if_pos hmoves, Function.update_apply, Function.update_apply]
    simp only [hmoves, and_true]
  · rw [if_neg hmoves]
    simp only [hmoves, and_false, if_false]

/-- After the renaming of the generations `1` to `k`, a generation holds the file that moved
there, or its own file if it did not move. -/
theorem files_shift (faults : RotateFaults) (k : Nat) (d : Disk Nat) (m : Nat) :
    (shift faults k d).files m =
      if 2 ≤ m ∧ m ≤ k + 1 ∧ faults.Moves d.files (m - 1) then d.files (m - 1)
      else if 1 ≤ m ∧ m ≤ k ∧ faults.Moves d.files m then none
      else d.files m := by
  induction k generalizing d with
  | zero =>
      have h₁ : ¬ (2 ≤ m ∧ m ≤ 0 + 1 ∧ faults.Moves d.files (m - 1)) := by omega
      have h₂ : ¬ (1 ≤ m ∧ m ≤ 0 ∧ faults.Moves d.files m) := by omega
      rw [if_neg h₁, if_neg h₂, shift]
  | succ k ih =>
      have hfiles := files_rename_generation faults (k + 1) d
      rw [shift, ih]
      generalize (d.rename (faults.shift (k + 1)) (k + 1) (k + 2)).1 = d' at hfiles
      -- The names below `k + 1` are not touched by the first renaming.
      have hlow : ∀ n ≤ k, d'.files n = d.files n := by
        intro n hn
        rw [hfiles, if_neg (by omega), if_neg (by omega)]
      have hmoves : ∀ n ≤ k, (faults.Moves d'.files n ↔ faults.Moves d.files n) := by
        intro n hn
        rw [RotateFaults.Moves, hlow n hn, RotateFaults.Moves]
      rcases Nat.lt_trichotomy m (k + 1) with hm | rfl | hm
      · simp only [hmoves m (by omega), hmoves (m - 1) (by omega), hlow m (by omega),
          hlow (m - 1) (by omega)]
        grind
      · simp only [hmoves k (by omega), hlow k (by omega), hfiles (k + 1), Nat.add_sub_cancel]
        grind
      · rw [if_neg (by omega), if_neg (by omega), hfiles m]
        grind

/-- The active file is not touched before it is renamed. -/
theorem handle_shift {faults : RotateFaults} {k : Nat} {d : Disk Nat}
    (h : d.handle = some active) : (shift faults k d).handle = some active := by
  induction k generalizing d with
  | zero => exact h
  | succ k ih => exact ih (Disk.handle_rename h (by simp [active]) (by simp [active]))

section Rotate

variable {w : Writer} {faults : RotateFaults} {s : WriterState}

theorem files_makeRoom_active (w : Writer) (faults : RotateFaults) (s : WriterState) :
    (w.makeRoom faults s.disk).files active = s.disk.files active := by
  have hN := w.generations_pos
  rw [Writer.makeRoom, files_shift, if_neg (by simp [active]), if_neg (by simp [active]),
    Disk.files_remove]
  split
  · rfl
  · exact Function.update_of_ne (by simp only [active]; omega) _ _

theorem handle_makeRoom (h : s.disk.handle = some active) :
    (w.makeRoom faults s.disk).handle = some active := by
  have hN := w.generations_pos
  exact handle_shift (Disk.handle_remove h (by simp only [active]; omega))

/-- A rotation fails in the last renaming or in opening the new file, and otherwise succeeds. -/
theorem rotate_cases (w : Writer) (faults : RotateFaults) (s : WriterState) :
    ((faults.close = true ∨ s.disk.files active = none) ∧
      ∃ e, w.rotate faults s = ({ s with disk := w.makeRoom faults s.disk }, .error e)) ∨
    ∃ file, faults.close = false ∧ s.disk.files active = some file ∧
      ((faults.reopen = true ∧
        w.rotate faults s =
          ({ s with disk := ((w.makeRoom faults s.disk).rename false active 1).1 },
            .error .failed)) ∨
      (faults.reopen = false ∧
        w.rotate faults s =
          ({ s with
              disk := (((w.makeRoom faults s.disk).rename false active 1).1.openAppend
                false active).1
              bytes := 0 }, .ok ()))) := by
  have hroom := files_makeRoom_active w faults s
  rcases hclose : faults.close with _ | _
  · rcases hfile : s.disk.files active with _ | file
    · refine .inl ⟨.inr rfl, ?_⟩
      obtain ⟨e, he⟩ := Disk.rename_of_none (q := 1) false (hroom.trans hfile)
      exact ⟨e, by rw [Writer.rotate, hclose, he]⟩
    · refine .inr ⟨file, rfl, rfl, ?_⟩
      have hren : (w.makeRoom faults s.disk).rename false active 1
          = (((w.makeRoom faults s.disk).rename false active 1).1, .ok ()) := by
        refine Prod.ext rfl ?_
        exact Disk.rename_ok_iff.mpr ⟨rfl, by rw [hroom, hfile]; rfl⟩
      rcases hreopen : faults.reopen with _ | _
      · exact .inr ⟨rfl, by rw [Writer.rotate, hclose, hren, hreopen]; rfl⟩
      · exact .inl ⟨rfl, by rw [Writer.rotate, hclose, hren, hreopen]; rfl⟩
  · exact .inl ⟨.inl rfl, .failed, by rw [Writer.rotate, hclose]; rfl⟩

/-- The files after a rotation that succeeded. -/
theorem files_rotate_ok {file : Bytes} (hfile : s.disk.files active = some file) (m : Nat) :
    (((w.makeRoom faults s.disk).rename false active 1).1.openAppend false active).1.files m =
      if m = active then some []
      else if m = 1 then some file
      else (w.makeRoom faults s.disk).files m := by
  have hroom := files_makeRoom_active w faults s
  have hren := Disk.files_rename false active 1 (w.makeRoom faults s.disk)
  rw [hroom, hfile, if_pos ⟨rfl, rfl⟩] at hren
  simp only [Disk.openAppend, hren, Bool.false_eq_true, if_false, Function.update_apply]
  by_cases hm : m = active
  · simp [hm, active]
  · simp only [hm, if_false]

/-- On a file system that works every kept file moves to the next number. -/
theorem files_makeRoom_none (m : Nat) :
    (w.makeRoom .none s.disk).files m =
      if m = 0 ∨ w.generations < m then s.disk.files m
      else if m = 1 then none
      else s.disk.files (m - 1) := by
  have hN := w.generations_pos
  have hmoves : ∀ (f : Nat → Option Bytes) n, RotateFaults.none.Moves f n ↔ (f n).isSome :=
    fun f n ↦ ⟨fun h ↦ h.2, fun h ↦ ⟨rfl, h⟩⟩
  have hremove : ∀ n, (s.disk.remove RotateFaults.none.remove w.generations).1.files n =
      if n = w.generations then none else s.disk.files n := by
    intro n
    rw [Disk.files_remove, if_neg (by simp [RotateFaults.none]), Function.update_apply]
  rw [Writer.makeRoom, files_shift]
  simp only [hmoves, hremove]
  rcases hm : s.disk.files m with _ | bs <;> rcases hm' : s.disk.files (m - 1) with _ | bs' <;>
    grind

end Rotate

end Vaiexia.Audit
