import Vaiexia.Audit.IoErrors
import Vaiexia.Audit.Resume

/-!
# Opening a file that a crash has cut

A crash while the writer writes a record leaves the lines before it and the first bytes of the new
one.  The file is opened in append mode, so the next record goes right behind these bytes.

The writer recovers (`Recovers`) when opening succeeds and every record it writes from then on,
whatever else is written and whatever fails, stands on a line of its own.  It does exactly when the
end of the cut file can be read as text, and nothing is left of the last line or the file is full
already, so that the first record goes to a new one (`recovers_from_cut_iff`).
-/

namespace Vaiexia.Audit

open Vaiexia.Lib Utf8

/-- The byte of a newline. -/
def newline : UInt8 := 10

/-- The file ends with the end of a line, or is empty. -/
def EndsLine (file : Bytes) : Prop := ∀ b ∈ file.getLast?, b = newline

/-- A crash has cut the active file in its last line, or just before the end of it: of these lines
and of the one after them, there are the first ones and `k` bytes of the last one. -/
structure CutIn (d : Disk Nat) (before line : Bytes) (k : Nat) : Prop where
  whole : EndsLine before
  last : newline ∉ line
  cut : k ≤ line.length
  file : d.files active = some (before ++ line.take k)

/-- What `last_line_meta` reads of a file. -/
def tailOf (file : Bytes) : Bytes := file.drop (file.length - min file.length tailLen)

/-- The record stands at the end of the active file, on a line of its own, and reads back with its
number and its link. -/
structure OnItsOwnLine (fromStr : List Char → Option Json) (d : Disk Nat) (r : Record) : Prop where
  file : ∃ before, EndsLine before ∧ d.files active = some (before ++ r.bytes)
  line : '\n' ∉ r.line
  json : ∃ v, fromStr r.line = some v ∧ (v.getD "seq").asU64 = some r.seq ∧
    (v.getD "prev").asStr = some r.prev.text

/-- Opening succeeds, and every record that is written from then on stands on a line of its own
when it is written.  The batches before it are any: one that the record belongs to can be cut. -/
def Recovers (blake3 : Bytes → Bytes32) (fromStr : List Char → Option Json) (w : Writer)
    (d : Disk Nat) : Prop :=
  ∃ s, WriterState.open blake3 fromStr d = .ok s ∧
    ∀ batches ev faults s',
      w.writeEventIo blake3 faults (w.writeBatchesIo blake3 s batches) ev = (s', .ok ()) →
      OnItsOwnLine fromStr s'.disk ((w.writeBatchesIo blake3 s batches).record ev)

/-! ## Lines and bytes -/

theorem encode_newline : encode ['\n'] = [newline] := by decide

theorem endsLine_nil : EndsLine [] := nofun

theorem endsLine_append_bytes (file : Bytes) (r : Record) : EndsLine (file ++ r.bytes) := by
  intro b hb
  rw [Record.bytes, encode_append, encode_newline, ← List.append_assoc,
    List.getLast?_concat] at hb
  exact (Option.some.inj hb).symm

/-- Any bytes are whole lines and the start of one more. -/
theorem exists_lines_append (file : Bytes) :
    ∃ before line, EndsLine before ∧ newline ∉ line ∧ file = before ++ line := by
  induction file using List.reverseRecOn with
  | nil => exact ⟨[], [], endsLine_nil, List.not_mem_nil, rfl⟩
  | append_singleton file b ih =>
      by_cases hb : b = newline
      · refine ⟨file ++ [b], [], ?_, List.not_mem_nil, (List.append_nil _).symm⟩
        intro c hc
        rw [List.getLast?_concat] at hc
        rw [← Option.some.inj hc, hb]
      · obtain ⟨before, line, hbefore, hline, rfl⟩ := ih
        refine ⟨before, line ++ [b], hbefore, ?_, List.append_assoc _ _ _⟩
        simp only [List.mem_append, List.mem_singleton, not_or]
        exact ⟨hline, fun h ↦ hb h.symm⟩

/-- A cut file ends a line only if nothing is left of the last one. -/
theorem CutIn.endsLine_iff {d : Disk Nat} {before line : Bytes} {k : Nat}
    (h : CutIn d before line k) : EndsLine (before ++ line.take k) ↔ k = 0 := by
  constructor
  · intro hends
    by_contra hk
    have hne : line.take k ≠ [] := by
      intro hnil
      have hlen := congrArg List.length hnil
      have := h.cut
      rw [List.length_take, List.length_nil] at hlen
      omega
    have hlast := List.getLast?_eq_some_getLast hne
    have hmem : (line.take k).getLast hne ∈ (before ++ line.take k).getLast? := by
      rw [List.getLast?_append, hlast]
      rfl
    have hline : (line.take k).getLast hne ∈ line := List.mem_of_mem_take (List.getLast_mem hne)
    exact h.last (hends _ hmem ▸ hline)
  · rintro rfl
    rw [List.take_zero, List.append_nil]
    exact h.whole

/-! ## Writing to the file -/

/-- The active file ends a line, or it is still the one that was found, and is full. -/
structure Tidy (w : Writer) (found : Bytes) (s : WriterState) : Prop where
  sound : w.Sound s
  file : ∀ file ∈ s.disk.files active,
    EndsLine file ∨ file = found ∧ w.maxBytes ≤ s.bytes

section

variable {blake3 : Bytes → Bytes32} {fromStr : List Char → Option Json} {w : Writer}
  {found : Bytes} {s s' : WriterState} {ev : AuditEvent} {faults : EventFaults}

/-- The file that the next record goes to ends a line. -/
theorem Tidy.target (h : Tidy w found s) {file : Bytes} (htarget : w.Target s file) :
    EndsLine file := by
  rw [Writer.Target] at htarget
  split at htarget
  · rw [htarget]
    exact endsLine_nil
  · rename_i hdue
    rcases h.file file htarget.file with hends | ⟨-, hfull⟩
    · exact hends
    · exact absurd hfull hdue

/-- **One event** keeps the file tidy. -/
theorem EventStep.tidy {new : List (Record × Bool)} {res : WriterState × Except IoError Unit}
    (hstep : EventStep blake3 w s ev new res) (h : Tidy w found s) : Tidy w found res.1 := by
  refine ⟨hstep.sound, fun file hmem ↦ ?_⟩
  cases hstep with
  | unrotated hdue hbytes _ _ hfile =>
      rcases h.file _ (holds_of_unrotated hfile hmem).file with hends | ⟨heq, -⟩
      · exact .inl hends
      · exact .inr ⟨heq, by rw [hbytes]; exact hdue⟩
  | lost htarget _ _ hfile =>
      obtain rfl := hfile.eq_of_mem hmem
      exact .inl (h.target htarget)
  | written htarget _ _ hfile =>
      obtain rfl := hfile.eq_of_mem hmem
      exact .inl (endsLine_append_bytes _ _)

/-- **Every run of batches** keeps the file tidy. -/
theorem Tidy.writeBatchesIo (batches : List (List (AuditEvent × EventFaults)))
    (h : Tidy w found s) : Tidy w found (w.writeBatchesIo blake3 s batches) :=
  writeBatchesIo_induct (P := fun _ _ s ↦ Tidy w found s) (n := 0) []
    (fun faults ev hs ↦ (writeEventIo_step blake3 faults ev hs.sound).tidy hs) (fun _ hs ↦ hs)
    batches h

/-- A writer that met no error has left whole lines. -/
theorem Consistent.tidy {log : SegmentedLog Record} (h : Consistent blake3 w log s) :
    Tidy w [] s := by
  refine ⟨.inl ⟨_, h.handle, h.file_active⟩, fun file hfile ↦ .inl ?_⟩
  obtain rfl := Option.some.inj (h.file_active.symm.trans hfile)
  rcases List.eq_nil_or_concat log.current with hnil | ⟨init, last, hconcat⟩
  · rw [hnil]
    exact endsLine_nil
  · rw [hconcat, List.concat_eq_append, fileBytes_append]
    exact endsLine_append_bytes _ _

/-- What the writer leaves when it started on whole lines, cut in its last line, is a cut file. -/
theorem exists_cutIn (h : Tidy w [] s) (batches : List (List (AuditEvent × EventFaults)))
    {file : Bytes} (hfile : (w.writeBatchesIo blake3 s batches).disk.files active = some file)
    (hne : file ≠ []) :
    ∃ before line, file = before ++ (line ++ [newline]) ∧ ∀ k ≤ line.length, ∀ d : Disk Nat,
      d.files active = some (file.take (before.length + k)) → CutIn d before line k := by
  have hends : EndsLine file := by
    rcases (h.writeBatchesIo batches).file file hfile with hends | ⟨hnil, -⟩
    · exact hends
    · exact absurd hnil hne
  rcases List.eq_nil_or_concat file with hnil | ⟨init, b, rfl⟩
  · exact absurd hnil hne
  · rw [List.concat_eq_append] at hends ⊢
    obtain rfl : b = newline := hends b (List.getLast?_concat ..)
    obtain ⟨before, line, hbefore, hline, rfl⟩ := exists_lines_append init
    refine ⟨before, line, List.append_assoc .., fun k hk d hd ↦ ⟨hbefore, hline, hk, ?_⟩⟩
    rw [hd, List.append_assoc, List.take_length_add_append, List.take_append_of_le_length hk]

/-- A record that is written to a tidy file stands on a line of its own. -/
theorem onItsOwnLine_of_tidy (hread : Json.ReadsBack fromStr) (h : Tidy w found s)
    (hok : w.writeEventIo blake3 faults s ev = (s', .ok ())) :
    OnItsOwnLine fromStr s'.disk (s.record ev) := by
  have hseq : (s.record ev).seq < 2 ^ 64 := Nat.mod_lt _ (by decide)
  refine ⟨?_, (Record.isLine_line hseq).1, ?_⟩
  · have hstep := writeEventIo_step blake3 faults ev h.sound
    rw [hok] at hstep
    generalize w.eventRecords faults s ev = new at hstep
    cases hstep with
    | written htarget _ _ hfile => exact ⟨_, h.target htarget, hfile.file⟩
  · obtain ⟨-, hgetseq, hgetprev⟩ := (s.record ev).schema
    refine ⟨_, hread _ (Record.readable_json hseq), ?_, ?_⟩
    · rw [hgetseq]
      exact if_pos hseq
    · rw [hgetprev]
      rfl

/-! ## Opening -/

/-- Opening a file whose end is text. -/
theorem open_of_isSome (blake3 : Bytes → Bytes32) (fromStr : List Char → Option Json)
    {d : Disk Nat} {file : Bytes} (hfile : d.files active = some file)
    (htail : (decode (tailOf file)).isSome) :
    ∃ s, WriterState.open blake3 fromStr d = .ok s ∧ s.Holds file ∧ s.bytes = file.length := by
  have hholds : ((d.openAppend false active).1).files active = some file := by
    rw [files_openAppend_of_some hfile, hfile]
  rw [WriterState.open, hfile]
  by_cases hlen : file.length = 0
  · exact ⟨_, if_pos hlen, ⟨rfl, hholds⟩, hlen.symm⟩
  · obtain ⟨buf, hbuf⟩ := Option.isSome_iff_exists.mp htail
    rw [tailOf] at hbuf
    simp only [if_neg hlen, lastLineMeta, hbuf]
    exact ⟨_, rfl, ⟨rfl, hholds⟩, rfl⟩

/-- A file whose end is not text cannot be opened. -/
theorem isSome_of_open {d : Disk Nat} {file : Bytes} (hfile : d.files active = some file)
    (hopen : WriterState.open blake3 fromStr d = .ok s) : (decode (tailOf file)).isSome := by
  rw [WriterState.open, hfile] at hopen
  by_cases hlen : file.length = 0
  · obtain rfl := List.eq_nil_of_length_eq_zero hlen
    rfl
  · rcases hbuf : decode (tailOf file) with _ | buf
    · rw [tailOf] at hbuf
      simp only [if_neg hlen, lastLineMeta, hbuf] at hopen
      cases hopen
    · rfl

variable {d : Disk Nat} {before line : Bytes} {k : Nat}

theorem CutIn.length (h : CutIn d before line k) :
    (before ++ line.take k).length = before.length + k := by
  rw [List.length_append, List.length_take, Nat.min_eq_left h.cut]

/-- Behind what is left of a line, in a file that is not full, the first record does not stand on a
line of its own. -/
theorem CutIn.not_recovers (h : CutIn d before line k) (hk : k ≠ 0)
    (hroom : before.length + k < w.maxBytes) : ¬ Recovers blake3 fromStr w d := by
  rintro ⟨s, hopen, hall⟩
  obtain ⟨s₀, hopen₀, hholds, hbytes⟩ := open_of_isSome blake3 fromStr
    h.file (isSome_of_open h.file hopen)
  obtain rfl : s₀ = s := Except.ok.inj (hopen₀.symm.trans hopen)
  let ev : AuditEvent := .new 0 .lifecycle .ok "system"
  have hwrite : w.writeEventIo blake3 .none s₀ ev = (s₀.write blake3 ev, .ok ()) :=
    (writeEventIo_of_lt blake3 (by rw [hbytes, h.length]; exact hroom) .none ev).1
  obtain ⟨⟨before', hbefore', hfile'⟩, -, -⟩ := hall [] ev .none _ hwrite
  have hfile : (s₀.write blake3 ev).disk.files active
      = some (before ++ line.take k ++ (s₀.record ev).bytes) := by
    rw [WriterState.write, Disk.files_append _ hholds.handle, Function.update_self, hholds.file]
    rfl
  obtain rfl := List.append_cancel_right (Option.some.inj (hfile.symm.trans hfile'))
  exact hk (h.endsLine_iff.mp hbefore')

/-- With nothing left of the last line, or in a full file, every record stands on its own. -/
theorem CutIn.recovers (hread : Json.ReadsBack fromStr) (h : CutIn d before line k)
    (htail : (decode (tailOf (before ++ line.take k))).isSome)
    (hcond : k = 0 ∨ w.maxBytes ≤ before.length + k) : Recovers blake3 fromStr w d := by
  obtain ⟨s, hopen, hholds, hbytes⟩ :=
    open_of_isSome blake3 fromStr h.file htail
  have htidy : Tidy w (before ++ line.take k) s := by
    refine ⟨.inl ⟨_, hholds⟩, fun file hfile ↦ ?_⟩
    obtain rfl := hholds.eq_of_mem hfile
    rcases hcond with hk | hfull
    · exact .inl (h.endsLine_iff.mpr hk)
    · exact .inr ⟨rfl, by rw [hbytes, h.length]; exact hfull⟩
  exact ⟨s, hopen, fun batches ev faults s' hok ↦
    onItsOwnLine_of_tidy hread (htidy.writeBatchesIo batches) hok⟩

/-- **Crash recovery.**  The writer recovers from a cut file exactly when the end of the file is
text, and nothing is left of the last line or the file is full. -/
theorem recovers_from_cut_iff (hread : Json.ReadsBack fromStr) (h : CutIn d before line k) :
    Recovers blake3 fromStr w d ↔
      (decode (tailOf (before ++ line.take k))).isSome ∧
        (k = 0 ∨ w.maxBytes ≤ before.length + k) := by
  constructor
  · intro hrecovers
    have ⟨s, hopen, _⟩ := hrecovers
    refine ⟨isSome_of_open h.file hopen, ?_⟩
    by_contra hnot
    obtain ⟨hk, hroom⟩ := not_or.mp hnot
    exact h.not_recovers hk (Nat.lt_of_not_le hroom) hrecovers
  · rintro ⟨htail, hcond⟩
    exact h.recovers hread htail hcond

end

/-! ### A record without its newline -/

/-- The line of the first record of a file. -/
def startedLine : Bytes := encode (emptyFile.record startedEvent).line

/-- What is left when the writer stops just before it writes the newline of its first record. -/
def cutDisk : Disk Nat where
  files n := if n = active then some startedLine else none
  handle := none

theorem cutIn_cutDisk : CutIn cutDisk [] startedLine startedLine.length where
  whole := endsLine_nil
  last := by decide +kernel
  cut := Nat.le_refl _
  file := by
    rw [List.take_length]
    rfl

theorem recovers_from_cut_iff_cutDisk :
    Recovers lossBlake3 Json.parse (.new 8388608 3) cutDisk ↔
      (decode (tailOf ([] ++ startedLine.take startedLine.length))).isSome ∧
        (startedLine.length = 0 ∨
          (Writer.new 8388608 3).maxBytes ≤ ([] : Bytes).length + startedLine.length) :=
  recovers_from_cut_iff Json.readsBack_parse cutIn_cutDisk

/-- **The writer does not recover** from it, whatever BLAKE3 says. -/
theorem not_recovers_cutDisk :
    ¬ ∃ blake3 : Bytes → Bytes32, Recovers blake3 Json.parse (.new 8388608 3) cutDisk := by
  rintro ⟨blake3, hrecovers⟩
  have hlen : startedLine.length ≠ 0 ∧
      ([] : Bytes).length + startedLine.length < (Writer.new 8388608 3).maxBytes := by
    decide +kernel
  exact cutIn_cutDisk.not_recovers hlen.1 hlen.2 hrecovers

end Vaiexia.Audit
