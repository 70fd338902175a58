import Vaiexia.Lib.DiskBounds

/-!
# A buffer before a file

The standard library's `BufWriter` over the open file of a directory.  What it takes stays in the
buffer until there is no room for more, and is then written; a write may fail after any number of
bytes, and what it did not write stays in the buffer for the next one.

`handed` is all that the writer has taken, whether it is in a file or still in the buffer, and
`through` is the directory that it makes in the end.  A flush changes neither of them, whether it
fails or not, and a `write_all` adds some first part of its bytes, which is all of them if it
succeeds (`writeAll_taken`).
-/

namespace Vaiexia.Lib

/-! ## Writes that fail -/

/-- What a write to a file comes to: all of it, or so many bytes and then an error. -/
inductive WriteFault where
  | none
  | after (n : Nat)

namespace WriteFault

/-- The bytes that are written. -/
def part : WriteFault → Bytes → Bytes
  | none, bs => bs
  | after n, bs => bs.take n

/-- Not all of them are. -/
def Fails (fault : WriteFault) (bs : Bytes) : Prop := (fault.part bs).length < bs.length

instance (fault : WriteFault) (bs : Bytes) : Decidable (fault.Fails bs) :=
  inferInstanceAs (Decidable (_ < _))

variable {fault : WriteFault} {bs : Bytes}

theorem part_prefix (fault : WriteFault) (bs : Bytes) : fault.part bs <+: bs := by
  cases fault with
  | none => exact List.prefix_refl bs
  | after n => exact List.take_prefix n bs

theorem part_eq (h : ¬ fault.Fails bs) : fault.part bs = bs :=
  (fault.part_prefix bs).eq_of_length (Nat.le_antisymm (fault.part_prefix bs).length_le
    (Nat.not_lt.mp h))

/-- What is written, and what is left. -/
theorem part_append_drop (fault : WriteFault) (bs : Bytes) :
    fault.part bs ++ bs.drop (fault.part bs).length = bs :=
  List.prefix_iff_eq_append.mp (fault.part_prefix bs)

@[simp] theorem part_nil (fault : WriteFault) : fault.part [] = [] :=
  List.prefix_nil.mp (fault.part_prefix [])

theorem not_fails_nil (fault : WriteFault) : ¬ fault.Fails [] := Nat.not_lt_zero _

theorem not_fails_none (bs : Bytes) : ¬ none.Fails bs := Nat.lt_irrefl _

end WriteFault

/-! ## The writer -/

/-- The directory with the open file, and the buffer.  `sent` is not part of the program: all that
was written to a file. -/
structure BufWriter (P : Type) where
  disk : Disk P
  buf : Bytes
  sent : Bytes

namespace BufWriter

/-- `DEFAULT_BUF_SIZE`. -/
def capacity : Nat := 8 * 1024

variable {P : Type} [DecidableEq P]

/-- `File::write_all`. -/
def writeFile (fault : WriteFault) (bs : Bytes) (w : BufWriter P) :
    BufWriter P × Except IoError Unit :=
  ({ w with disk := w.disk.append (fault.part bs), sent := w.sent ++ fault.part bs },
    if fault.Fails bs then .error .failed else .ok ())

/-- `flush_buf`. -/
def flush (fault : WriteFault) (w : BufWriter P) : BufWriter P × Except IoError Unit :=
  ({ disk := w.disk.append (fault.part w.buf)
     buf := w.buf.drop (fault.part w.buf).length
     sent := w.sent ++ fault.part w.buf },
    if fault.Fails w.buf then .error .failed else .ok ())

/-- `write_all`: what has room goes to the buffer, which is flushed before if it is too full, and
what has no room in an empty buffer goes to the file. -/
def writeAll (flushed direct : WriteFault) (bs : Bytes) (w : BufWriter P) :
    BufWriter P × Except IoError Unit :=
  let spare := capacity - w.buf.length
  if bs.length < spare then ({ w with buf := w.buf ++ bs }, .ok ())
  else
    match if spare < bs.length then w.flush flushed else (w, .ok ()) with
    | (w, .error e) => (w, .error e)
    | (w, .ok ()) =>
        if capacity ≤ bs.length then w.writeFile direct bs
        else ({ w with buf := w.buf ++ bs }, .ok ())

/-- All that was taken. -/
def handed (w : BufWriter P) : Bytes := w.sent ++ w.buf

/-- The directory once the buffer is written. -/
def through (w : BufWriter P) : Disk P := w.disk.append w.buf

/-- The flush that `write_all` may begin with fails, or the write to the file that it may end
with. -/
def Refuses (flushed direct : WriteFault) (bs : Bytes) (w : BufWriter P) : Prop :=
  (capacity - w.buf.length < bs.length ∧ flushed.Fails w.buf) ∨
    capacity ≤ bs.length ∧ direct.Fails bs

instance (flushed direct : WriteFault) (bs : Bytes) (w : BufWriter P) :
    Decidable (w.Refuses flushed direct bs) := inferInstanceAs (Decidable (_ ∨ _))

variable {w : BufWriter P} {bs : Bytes}

/-! ## What they do -/

theorem flush_of_fails {fault : WriteFault} (h : fault.Fails w.buf) :
    w.flush fault = ((w.flush fault).1, .error .failed) := Prod.ext rfl (if_pos h)

theorem flush_of_not_fails {fault : WriteFault} (h : ¬ fault.Fails w.buf) :
    w.flush fault = ((w.flush fault).1, .ok ()) := Prod.ext rfl (if_neg h)

/-- **A flush** changes nothing of what was taken. -/
@[simp] theorem handed_flush (fault : WriteFault) (w : BufWriter P) :
    (w.flush fault).1.handed = w.handed := by
  simp only [flush, handed, List.append_assoc, WriteFault.part_append_drop]

@[simp] theorem through_flush (fault : WriteFault) (w : BufWriter P) :
    (w.flush fault).1.through = w.through := by
  simp only [flush, through, Disk.append_append, WriteFault.part_append_drop]

theorem buf_flush (fault : WriteFault) (w : BufWriter P) :
    (w.flush fault).1.buf = w.buf.drop (fault.part w.buf).length := rfl

/-- One that succeeds leaves nothing behind. -/
theorem buf_flush_of_not_fails {fault : WriteFault} (h : ¬ fault.Fails w.buf) :
    (w.flush fault).1.buf = [] := by
  rw [buf_flush, WriteFault.part_eq h, List.drop_length]

/-- What a call leaves that was given `bs`: it has taken a first part of them, all if it is `ok`. -/
structure Taken (bs : Bytes) (w : BufWriter P) (res : BufWriter P × Except IoError Unit)
    (p : Bytes) : Prop where
  isPrefix : p <+: bs
  handed : res.1.handed = w.handed ++ p
  through : res.1.through = w.through.append p
  all : res.2 = .ok () → p = bs
  failed : res.2 ≠ .ok () → p.length < bs.length

/-- Bytes that have room in the buffer. -/
theorem taken_push (w : BufWriter P) (bs : Bytes) :
    Taken bs w ({ w with buf := w.buf ++ bs }, .ok ()) bs where
  isPrefix := List.prefix_refl bs
  handed := (List.append_assoc _ _ _).symm
  through := by simp only [BufWriter.through, Disk.append_append]
  all _ := rfl
  failed h := absurd rfl h

/-- Bytes that are written past an empty buffer. -/
theorem taken_writeFile (fault : WriteFault) (bs : Bytes) (hempty : w.buf = []) :
    Taken bs w (w.writeFile fault bs) (fault.part bs) where
  isPrefix := fault.part_prefix bs
  handed := by simp [writeFile, BufWriter.handed, hempty]
  through := by simp [writeFile, BufWriter.through, hempty]
  all hok := by
    refine WriteFault.part_eq fun hfails ↦ ?_
    simp [writeFile, hfails] at hok
  failed herr := by
    by_contra hnot
    exact herr (if_neg hnot)

/-- **A `write_all`** takes a first part of what it is given, and succeeds exactly if no write that
it needs fails: then it has taken all. -/
theorem writeAll_taken (flushed direct : WriteFault) (bs : Bytes) (w : BufWriter P) :
    (∃ p, Taken bs w (w.writeAll flushed direct bs) p) ∧
      ((w.writeAll flushed direct bs).2 = .ok () ↔ ¬ w.Refuses flushed direct bs) := by
  unfold writeAll Refuses
  dsimp only
  by_cases hroom : bs.length < capacity - w.buf.length
  · rw [if_pos hroom]
    refine ⟨⟨bs, taken_push w bs⟩, iff_of_true rfl (not_or.mpr ⟨?_, ?_⟩)⟩
    · rintro ⟨hfull, -⟩
      exact absurd hfull (Nat.lt_asymm hroom)
    · rintro ⟨hlong, -⟩
      omega
  · rw [if_neg hroom]
    -- the second half, on a buffer that is empty if the bytes are too many for it
    have hlast : ∀ w' : BufWriter P, w'.handed = w.handed → w'.through = w.through →
        (capacity ≤ bs.length → w'.buf = []) →
        (∃ p, Taken bs w (if capacity ≤ bs.length then w'.writeFile direct bs
          else ({ w' with buf := w'.buf ++ bs }, .ok ())) p) ∧
        ((if capacity ≤ bs.length then w'.writeFile direct bs
          else ({ w' with buf := w'.buf ++ bs }, .ok ())).2 = .ok () ↔
            ¬ (capacity ≤ bs.length ∧ direct.Fails bs)) := by
      intro w' hhanded hthrough hempty
      have hsame : ∀ {res p}, Taken bs w' res p → Taken bs w res p := fun h ↦
        ⟨h.isPrefix, hhanded ▸ h.handed, hthrough ▸ h.through, h.all, h.failed⟩
      by_cases hlong : capacity ≤ bs.length
      · rw [if_pos hlong]
        refine ⟨⟨_, hsame (taken_writeFile direct bs (hempty hlong))⟩, ?_⟩
        by_cases hfails : direct.Fails bs <;> simp [writeFile, hlong, hfails]
      · rw [if_neg hlong]
        exact ⟨⟨bs, hsame (taken_push w' bs)⟩, by simp [hlong]⟩
    by_cases hfull : capacity - w.buf.length < bs.length
    · rw [if_pos hfull]
      by_cases hfails : flushed.Fails w.buf
      · rw [flush_of_fails hfails]
        refine ⟨⟨[], List.nil_prefix, ?_, ?_, ?_, ?_⟩, by simp [hfull, hfails]⟩
        · simp
        · simp
        · intro h
          cases h
        · intro _
          exact Nat.lt_of_le_of_lt (Nat.zero_le _) hfull
      · rw [flush_of_not_fails hfails]
        have h := hlast (w.flush flushed).1 (handed_flush _ _) (through_flush _ _)
          fun _ ↦ buf_flush_of_not_fails hfails
        refine ⟨h.1, h.2.trans ?_⟩
        simp [hfails]
    · rw [if_neg hfull]
      have h := hlast w rfl rfl fun hlong ↦ List.eq_nil_of_length_eq_zero (by
        have hcapacity : 0 < capacity := by decide
        omega)
      refine ⟨h.1, h.2.trans ?_⟩
      simp [hfull]

/-- Bytes that have no room in an empty buffer may not be taken at all. -/
theorem writeAll_after_zero (w : BufWriter P) (hlong : capacity ≤ bs.length) :
    ∃ w', w.writeAll .none (.after 0) bs = (w', .error .failed) ∧ w'.through = w.through := by
  have hcapacity : 0 < capacity := by decide
  have hfails : (WriteFault.after 0).Fails bs := by
    rw [WriteFault.Fails, WriteFault.part, List.take_zero, List.length_nil]
    omega
  have hfile : ∀ w' : BufWriter P, w'.writeFile (.after 0) bs = (w', .error .failed) := fun w' ↦ by
    simp [writeFile, WriteFault.part, hfails]
  have hworks := WriteFault.not_fails_none w.buf
  unfold writeAll
  dsimp only
  rw [if_neg (by omega)]
  by_cases hfull : capacity - w.buf.length < bs.length
  · rw [if_pos hfull, flush_of_not_fails hworks]
    dsimp only
    rw [if_pos hlong, hfile]
    exact ⟨_, rfl, through_flush _ _⟩
  · rw [if_neg hfull]
    dsimp only
    rw [if_pos hlong, hfile]
    exact ⟨_, rfl, rfl⟩

/-! ## What is in the open file -/

/-- The open file ends with the last of what was written since it held `old`. -/
def Tails (old : Bytes) (w : BufWriter P) : Prop := w.disk.Open (· <:+ old ++ w.sent)

variable {old : Bytes}

theorem Tails.write {w' : BufWriter P} {p : Bytes} (h : w.Tails old)
    (hdisk : w'.disk = w.disk.append p) (hsent : w'.sent = w.sent ++ p) : w'.Tails old := by
  rw [Tails, hdisk, hsent, ← List.append_assoc]
  exact Disk.Open.append h fun file hfile ↦ List.suffix_append_self_iff.mpr hfile

theorem Tails.flush (h : w.Tails old) (fault : WriteFault) : (w.flush fault).1.Tails old :=
  h.write rfl rfl

theorem Tails.writeAll (h : w.Tails old) (flushed direct : WriteFault) (bs : Bytes) :
    (w.writeAll flushed direct bs).1.Tails old := by
  have hlast : ∀ w' : BufWriter P, w'.Tails old →
      (if capacity ≤ bs.length then w'.writeFile direct bs
        else ({ w' with buf := w'.buf ++ bs }, .ok ())).1.Tails old := by
    intro w' h'
    split
    · exact h'.write rfl rfl
    · exact h'
  unfold BufWriter.writeAll
  dsimp only
  split
  · exact h
  · split
    · rename_i w₁ e hflush
      split at hflush
      · rw [← show (w.flush flushed).1 = w₁ from congrArg Prod.fst hflush]
        exact h.flush flushed
      · cases hflush
    · rename_i w₁ hflush
      split at hflush
      · rw [← show (w.flush flushed).1 = w₁ from congrArg Prod.fst hflush]
        exact hlast _ (h.flush flushed)
      · obtain rfl := congrArg Prod.fst hflush
        exact hlast _ h

end BufWriter

end Vaiexia.Lib
