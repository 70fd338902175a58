import Mathlib.Logic.Relation
import Vaiexia.Audit.Resume

/-!
# Which records a rotation evicts

A run of the writer on a file system whose renames and openings may fail, with the history that
the code does not keep: the number of rotations that completed, and each record with that number
at the time it was written.  A record is evicted by age when it is gone only after as many
completed rotations as there are generations, counted from the one that closed its file.

`rotate` removes and renames before the steps that can make it fail, and the next event repeats
it, so failures evict records before their age.  They do not as long as every rotation either has
none of its renames of existing files and its opening fail, or moves no file at all
(`Undisturbed`); then every record is in the generation that its age says (`Placed`), which one
event preserves (`placed_step`) and so every run.
-/

namespace Vaiexia.Audit

open Vaiexia.Lib Utf8

/-! ## Histories -/

/-- The state of the writer, and what happened so far. -/
structure History where
  state : WriterState
  /-- How many rotations completed. -/
  rotations : Nat
  /-- The records written, each with the number of rotations completed before it. -/
  written : List (Nat × Record)

/-- Nothing happened yet. -/
def History.start (s : WriterState) : History where
  state := s
  rotations := 0
  written := []

section

variable (blake3 : Bytes → Bytes32)

/-- A record is written. -/
def History.write (h : History) (ev : AuditEvent) : History :=
  { h with
    state := h.state.write blake3 ev
    written := h.written ++ [(h.rotations, h.state.record ev)] }

/-- `Writer.rotate`, counted when it completes. -/
def Writer.rotateHistory (w : Writer) (faults : RotateFaults) (h : History) : History :=
  match w.rotate faults h.state with
  | (s, .error _) => { h with state := s }
  | (s, .ok ()) => { h with state := s, rotations := h.rotations + 1 }

/-- `Writer.writeEvent` on histories. -/
def Writer.eventHistory (w : Writer) (faults : RotateFaults) (h : History) (ev : AuditEvent) :
    History :=
  if w.maxBytes ≤ h.state.bytes then
    match (w.rotate faults h.state).2 with
    | .error _ => w.rotateHistory faults h
    | .ok () => (w.rotateHistory faults h).write blake3 ev
  else h.write blake3 ev

/-- The history follows the writer. -/
theorem state_eventHistory (w : Writer) (faults : RotateFaults) (h : History) (ev : AuditEvent) :
    (w.eventHistory blake3 faults h ev).state = (w.writeEvent blake3 faults h.state ev).1 := by
  unfold Writer.eventHistory Writer.writeEvent Writer.rotateHistory
  split
  · rcases w.rotate faults h.state with ⟨s, e | _⟩ <;> rfl
  · rfl

variable (fromStr : List Char → Option Json)

/-- One step of a run: an event is handled, or a new session opens the files.  The rotation an
event causes is one of those `allowed`. -/
inductive Step (w : Writer) (allowed : WriterState → RotateFaults → Prop) :
    History → History → Prop where
  | event (h : History) (faults : RotateFaults) (ev : AuditEvent)
      (hallowed : w.maxBytes ≤ h.state.bytes → allowed h.state faults) :
      Step w allowed h (w.eventHistory blake3 faults h ev)
  | session (h : History) (s : WriterState)
      (hopen : WriterState.open blake3 fromStr h.state.disk = .ok s) :
      Step w allowed h { h with state := s }

/-- Any number of steps. -/
abbrev Run (w : Writer) (allowed : WriterState → RotateFaults → Prop) : History → History → Prop :=
  Relation.ReflTransGen (Step blake3 fromStr w allowed)

/-- A batch, faults and all, is a run: an error drops the events that are left. -/
theorem run_writeBatch (w : Writer) (batch : List (AuditEvent × RotateFaults)) (h : History) :
    ∃ h', Run blake3 fromStr w (fun _ _ ↦ True) h h' ∧
      h'.state = (w.writeBatch blake3 h.state batch).1 := by
  induction batch generalizing h with
  | nil => exact ⟨h, .refl, rfl⟩
  | cons x batch ih =>
      obtain ⟨ev, faults⟩ := x
      have hstep : Step blake3 fromStr w (fun _ _ ↦ True) h (w.eventHistory blake3 faults h ev) :=
        .event h faults ev fun _ ↦ trivial
      have hstate := state_eventHistory blake3 w faults h ev
      rcases hwrite : w.writeEvent blake3 faults h.state ev with ⟨s, e | _⟩
      · rw [hwrite] at hstate
        exact ⟨_, .single hstep, by rw [Writer.writeBatch, hwrite, hstate]⟩
      · rw [hwrite] at hstate
        obtain ⟨h', hrun, hend⟩ := ih (w.eventHistory blake3 faults h ev)
        exact ⟨h', .head hstep hrun, by rw [Writer.writeBatch, hwrite, hend, hstate]⟩

/-- Batch after batch is a run. -/
theorem run_writeBatches (w : Writer) (batches : List (List (AuditEvent × RotateFaults)))
    (h : History) :
    ∃ h', Run blake3 fromStr w (fun _ _ ↦ True) h h' ∧
      h'.state = w.writeBatches blake3 h.state batches := by
  induction batches generalizing h with
  | nil => exact ⟨h, .refl, rfl⟩
  | cons batch batches ih =>
      obtain ⟨h₁, hrun₁, hstate₁⟩ := run_writeBatch blake3 fromStr w batch h
      obtain ⟨h₂, hrun₂, hstate₂⟩ := ih h₁
      refine ⟨h₂, hrun₁.trans hrun₂, ?_⟩
      rw [hstate₂, hstate₁]
      rfl

end

/-! ## Eviction by age -/

/-- The record is in the active file or in a kept generation. -/
def Held (w : Writer) (d : Disk Nat) (r : Record) : Prop :=
  ∃ n ≤ w.generations, ∃ file ∈ d.files n, r.bytes <:+: file

/-- A record is gone only after `generations` completed rotations, counted from the one that
closed its file. -/
def EvictedByAge (w : Writer) (h : History) : Prop :=
  ∀ epoch r, (epoch, r) ∈ h.written →
    Held w h.state.disk r ∨ epoch + 1 + w.generations ≤ h.rotations

/-- A rotation that fails keeps the records that are held, and holds no others. -/
def ErrorKeeps (w : Writer) (s : WriterState) (faults : RotateFaults) : Prop :=
  ∀ e, (w.rotate faults s).2 = .error e →
    ∀ r, Held w (w.rotate faults s).1.disk r ↔ Held w s.disk r

/-- Either no rename of an existing file and no opening fails, or nothing is moved at all. -/
def Undisturbed (w : Writer) (s : WriterState) (faults : RotateFaults) : Prop :=
  (faults.close = false ∧ faults.reopen = false ∧
    ∀ n, 1 ≤ n → n < w.generations → (s.disk.files n).isSome → faults.shift n = false) ∨
  (faults.close = true ∧
    (∀ n, 1 ≤ n → n < w.generations → (s.disk.files n).isSome → faults.shift n = true) ∧
    ((s.disk.files w.generations).isSome → faults.remove = true))

/-- Every record whose age allows it is in the generation of its age. -/
structure Placed (w : Writer) (h : History) : Prop where
  handle : h.state.disk.handle = some active
  open_file : (h.state.disk.files active).isSome
  epoch_le : ∀ epoch r, (epoch, r) ∈ h.written → epoch ≤ h.rotations
  held : ∀ epoch r, (epoch, r) ∈ h.written → h.rotations - epoch ≤ w.generations →
    ∃ file ∈ h.state.disk.files (h.rotations - epoch), r.bytes <:+: file

/-- Placed records are evicted by age only. -/
theorem evictedByAge_of_placed {w : Writer} {h : History} (hp : Placed w h) :
    EvictedByAge w h := by
  intro epoch r hr
  have hle := hp.epoch_le epoch r hr
  by_cases hage : h.rotations - epoch ≤ w.generations
  · exact .inl ⟨_, hage, hp.held epoch r hr hage⟩
  · exact .inr (by omega)

/-! ## What an undisturbed rotation does -/

section

variable {w : Writer} {faults : RotateFaults} {s : WriterState}

/-- If no rename fails, every generation but the oldest moves to the next number. -/
theorem files_makeRoom_of_moves
    (hshift : ∀ n, 1 ≤ n → n < w.generations → (s.disk.files n).isSome → faults.shift n = false)
    {n : Nat} (hn : 1 ≤ n) (hlt : n < w.generations) {file : Bytes}
    (hfile : s.disk.files n = some file) :
    (w.makeRoom faults s.disk).files (n + 1) = some file := by
  have hremove : (s.disk.remove faults.remove w.generations).1.files n = some file := by
    rw [Disk.files_remove]
    split
    · exact hfile
    · rw [Function.update_of_ne (by omega), hfile]
  have hmoves : faults.Moves (s.disk.remove faults.remove w.generations).1.files n :=
    ⟨hshift n hn hlt (by rw [hfile]; rfl), by rw [hremove]; rfl⟩
  rw [Writer.makeRoom, files_shift, Nat.add_sub_cancel, if_pos ⟨by omega, by omega, hmoves⟩]
  exact hremove

/-- If every operation on an existing file fails, nothing changes. -/
theorem files_makeRoom_of_stuck
    (hshift : ∀ n, 1 ≤ n → n < w.generations → (s.disk.files n).isSome → faults.shift n = true)
    (hremove : (s.disk.files w.generations).isSome → faults.remove = true) :
    (w.makeRoom faults s.disk).files = s.disk.files := by
  have hfiles : (s.disk.remove faults.remove w.generations).1.files = s.disk.files := by
    rw [Disk.files_remove]
    split
    · rfl
    · rename_i hfault
      rw [Function.update_eq_iff]
      refine ⟨?_, fun _ _ ↦ rfl⟩
      rcases hN : s.disk.files w.generations with _ | file
      · rfl
      · exact absurd (hremove (by rw [hN]; rfl)) hfault
  have hmoves : ∀ n, 1 ≤ n → n < w.generations → ¬ faults.Moves s.disk.files n := by
    rintro n hn hlt ⟨hgo, hsome⟩
    rw [hshift n hn hlt hsome] at hgo
    cases hgo
  funext m
  rw [Writer.makeRoom, files_shift, hfiles, if_neg, if_neg]
  · rintro ⟨h1, hm, hgo⟩
    exact hmoves m h1 (by have := w.generations_pos; omega) hgo
  · rintro ⟨h2, hm, hgo⟩
    exact hmoves (m - 1) (by omega) (by have := w.generations_pos; omega) hgo

/-- An undisturbed rotation of an open file moves every file to the next number, or fails and
leaves every file where it is. -/
theorem rotate_undisturbed (hok : Undisturbed w s faults) (hopen : (s.disk.files active).isSome) :
    (∃ s', w.rotate faults s = (s', .ok ()) ∧ s'.disk.handle = some active ∧
      s'.disk.files active = some [] ∧
      ∀ n < w.generations, ∀ file ∈ s.disk.files n, s'.disk.files (n + 1) = some file) ∨
    (∃ s' e, w.rotate faults s = (s', .error e) ∧ s'.disk.files = s.disk.files ∧
      (s.disk.handle = some active → s'.disk.handle = some active)) := by
  rcases hok with ⟨hclose, hreopen, hshift⟩ | ⟨hclose, hshift, hremove⟩
  · rcases rotate_cases w faults s with ⟨hfail | hfail, _⟩ | ⟨file, _, hfile, hrot | hrot⟩
    · rw [hclose] at hfail
      cases hfail
    · rw [hfail] at hopen
      cases hopen
    · rw [hreopen] at hrot
      cases hrot.1
    · refine .inl ⟨_, hrot.2, rfl, ?_, ?_⟩
      · rw [files_rotate_ok hfile, if_pos rfl]
      · intro n hn file' hfile'
        rw [files_rotate_ok hfile, if_neg (by simp [active])]
        rcases Nat.eq_zero_or_pos n with rfl | hpos
        · rw [if_pos rfl, ← hfile]
          exact hfile'
        · rw [if_neg (by omega)]
          exact files_makeRoom_of_moves hshift hpos hn hfile'
  · rcases rotate_cases w faults s with ⟨_, e, hrot⟩ | ⟨_, hfail, _⟩
    · refine .inr ⟨_, e, hrot, files_makeRoom_of_stuck hshift hremove, handle_makeRoom⟩
    · rw [hclose] at hfail
      cases hfail

/-- An undisturbed rotation that fails keeps every record. -/
theorem errorKeeps_of_undisturbed (hok : Undisturbed w s faults)
    (hopen : (s.disk.files active).isSome) : ErrorKeeps w s faults := by
  intro e he r
  rcases rotate_undisturbed hok hopen with ⟨s', hrot, _⟩ | ⟨s', e', hrot, hfiles, _⟩
  · rw [hrot] at he
    cases he
  · rw [hrot, Held, Held, hfiles]

end

/-! ## Runs -/

section

variable {blake3 : Bytes → Bytes32} {fromStr : List Char → Option Json} {w : Writer}

/-- Writing puts a record into the active file. -/
theorem placed_write {h : History} (hp : Placed w h) (ev : AuditEvent) :
    Placed w (h.write blake3 ev) := by
  obtain ⟨file, hfile⟩ := Option.isSome_iff_exists.mp hp.open_file
  have hfiles : ∀ n, (h.write blake3 ev).state.disk.files n =
      if n = active then some (file ++ (h.state.record ev).bytes) else h.state.disk.files n := by
    intro n
    rw [History.write, WriterState.write, Disk.files_append _ hp.handle, Function.update_apply,
      hfile]
    rfl
  refine ⟨?_, ?_, ?_, ?_⟩
  · rw [History.write, WriterState.write, Disk.handle_append]
    exact hp.handle
  · rw [hfiles, if_pos rfl]
    rfl
  · intro epoch r hr
    rcases List.mem_append.mp hr with hr | hr
    · exact hp.epoch_le epoch r hr
    · rw [(Prod.mk.inj (List.mem_singleton.mp hr)).1]
      exact Nat.le_refl _
  · intro epoch r hr hage
    rcases List.mem_append.mp hr with hr | hr
    · obtain ⟨file', hfile', hin⟩ := hp.held epoch r hr hage
      change ∃ f ∈ (h.write blake3 ev).state.disk.files (h.rotations - epoch), _
      rw [hfiles]
      split
      · rename_i hnow
        rw [hnow, hfile] at hfile'
        obtain rfl := Option.some.inj hfile'
        exact ⟨_, rfl, hin.trans (List.prefix_append _ _).isInfix⟩
      · exact ⟨file', hfile', hin⟩
    · obtain ⟨rfl, rfl⟩ := Prod.mk.inj (List.mem_singleton.mp hr)
      change ∃ f ∈ (h.write blake3 ev).state.disk.files (h.rotations - h.rotations), _
      rw [Nat.sub_self, hfiles]
      exact ⟨_, if_pos rfl, (List.suffix_append _ _).isInfix⟩

/-- A rotation moves every record as it ages. -/
theorem placed_rotateHistory {h : History} (hp : Placed w h) {faults : RotateFaults}
    (hok : Undisturbed w h.state faults) : Placed w (w.rotateHistory faults h) := by
  rcases rotate_undisturbed hok hp.open_file with ⟨s', hrot, hhandle, hopen, hmove⟩ |
    ⟨s', e, hrot, hfiles, hhandle⟩
  · rw [Writer.rotateHistory, hrot]
    refine ⟨hhandle, by rw [hopen]; rfl, ?_, ?_⟩
    · intro epoch r hr
      exact Nat.le_succ_of_le (hp.epoch_le epoch r hr)
    · intro epoch r hr hage
      have hle := hp.epoch_le epoch r hr
      have hnext : h.rotations + 1 - epoch = h.rotations - epoch + 1 := by omega
      simp only [hnext] at hage ⊢
      obtain ⟨file, hfile, hin⟩ := hp.held epoch r hr (by omega)
      exact ⟨file, hmove _ (by omega) file hfile, hin⟩
  · rw [Writer.rotateHistory, hrot]
    refine ⟨hhandle hp.handle, ?_, hp.epoch_le, ?_⟩
    · rw [hfiles]
      exact hp.open_file
    · rw [hfiles]
      exact hp.held

/-- Opening does nothing to the files but open one. -/
theorem disk_open {d : Disk Nat} {s : WriterState}
    (hopen : WriterState.open blake3 fromStr d = .ok s) :
    s.disk = (d.openAppend false active).1 := by
  unfold WriterState.open at hopen
  split at hopen
  · rw [← Except.ok.inj hopen]
  · split at hopen
    · rw [← Except.ok.inj hopen]
    · split at hopen
      · cases hopen
      · rw [← Except.ok.inj hopen]

/-- A new session finds the files as they are. -/
theorem placed_session {h : History} (hp : Placed w h) {s : WriterState}
    (hopen : WriterState.open blake3 fromStr h.state.disk = .ok s) :
    Placed w { h with state := s } := by
  obtain ⟨file, hfile⟩ := Option.isSome_iff_exists.mp hp.open_file
  have hfiles : s.disk.files = h.state.disk.files := by
    rw [disk_open hopen, files_openAppend_of_some hfile]
  refine ⟨by rw [disk_open hopen]; rfl, ?_, hp.epoch_le, ?_⟩
  · rw [hfiles]
    exact hp.open_file
  · rw [hfiles]
    exact hp.held

/-- A writer that opened its file has written nothing yet. -/
theorem placed_start {d : Disk Nat} {s : WriterState}
    (hopen : WriterState.open blake3 fromStr d = .ok s) : Placed w (.start s) where
  handle := by
    rw [History.start, disk_open hopen]
    rfl
  open_file := by
    rw [History.start, disk_open hopen]
    simp [Disk.openAppend]
  epoch_le := fun _ _ hr ↦ nomatch hr
  held := fun _ _ hr ↦ nomatch hr

/-- **One step** keeps every record in the generation of its age. -/
theorem placed_step {h h' : History} (hp : Placed w h)
    (hstep : Step blake3 fromStr w (Undisturbed w) h h') : Placed w h' := by
  cases hstep with
  | event faults ev hallowed =>
      unfold Writer.eventHistory
      split
      · rename_i hdue
        have hrot := placed_rotateHistory hp (hallowed hdue)
        split
        · exact hrot
        · exact placed_write hrot ev
      · exact placed_write hp ev
  | session s hopen => exact placed_session hp hopen

/-- Every run keeps every record in the generation of its age. -/
theorem placed_run {h h' : History} (hp : Placed w h)
    (hrun : Run blake3 fromStr w (Undisturbed w) h h') : Placed w h' := by
  induction hrun with
  | refl => exact hp
  | tail _ hstep ih => exact placed_step ih hstep

/-- **Undisturbed rotations evict by age only.**  In every run, over any number of events and
sessions, whose rotations all are undisturbed, every record that is gone was closed as many
completed rotations ago as there are generations, and a rotation that fails keeps all records. -/
theorem evictedByAge_of_undisturbed (blake3 : Bytes → Bytes32)
    (fromStr : List Char → Option Json) {d : Disk Nat} {s : WriterState}
    (hopen : WriterState.open blake3 fromStr d = .ok s) {h : History}
    (hrun : Run blake3 fromStr w (Undisturbed w) (.start s) h) :
    EvictedByAge w h ∧ ∀ faults, Undisturbed w h.state faults → ErrorKeeps w h.state faults := by
  have hp := placed_run (placed_start hopen) hrun
  exact ⟨evictedByAge_of_placed hp, fun faults hok ↦ errorKeeps_of_undisturbed hok hp.open_file⟩

/-- A rotation of which nothing works. -/
def allFail : RotateFaults where
  remove := true
  shift := fun _ ↦ true
  close := true
  reopen := true

theorem undisturbed_none {s : WriterState} : Undisturbed w s .none :=
  .inl ⟨rfl, rfl, fun _ _ _ _ ↦ rfl⟩

theorem undisturbed_allFail {s : WriterState} : Undisturbed w s allFail :=
  .inr ⟨rfl, fun _ _ _ _ ↦ rfl, fun _ ↦ rfl⟩

/-- An event that fills the file, after a rotation if it is full already. -/
def fillingEvent (faults : RotateFaults) (h : History) : History :=
  (Writer.new 100 1).eventHistory (fun _ ↦ Bytes32.zero) faults h (.new 0 .lifecycle .ok "system")

/-- Four events: the rotation before the second one fails, and those before the third and the fourth
do not. -/
def agedHistory : History :=
  fillingEvent .none <| fillingEvent .none <| fillingEvent allFail <| fillingEvent .none <|
    .start ⟨(Disk.empty.openAppend false active).1, 0, 0, genesis⟩

/-- The first record is evicted, by age. -/
theorem evictedByAge_of_undisturbed_agedHistory :
    EvictedByAge (.new 100 1) agedHistory ∧ ErrorKeeps (.new 100 1) agedHistory.state allFail ∧
      agedHistory.rotations = 2 ∧
      ∃ r, (0, r) ∈ agedHistory.written ∧ ¬ Held (.new 100 1) agedHistory.state.disk r := by
  have hevent : ∀ {faults : RotateFaults} {start h : History},
      Run (fun _ ↦ Bytes32.zero) Json.parse (.new 100 1) (Undisturbed (.new 100 1)) start h →
      Undisturbed (.new 100 1) h.state faults →
      Run (fun _ ↦ Bytes32.zero) Json.parse (.new 100 1) (Undisturbed (.new 100 1)) start
        (fillingEvent faults h) := fun hrun hok ↦ hrun.tail (.event _ _ _ fun _ ↦ hok)
  have hrun : Run (fun _ ↦ Bytes32.zero) Json.parse (.new 100 1) (Undisturbed (.new 100 1))
      (.start ⟨(Disk.empty.openAppend false active).1, 0, 0, genesis⟩) agedHistory :=
    hevent (hevent (hevent (hevent .refl undisturbed_none) undisturbed_allFail) undisturbed_none)
      undisturbed_none
  obtain ⟨hage, hkeeps⟩ :=
    evictedByAge_of_undisturbed (fun _ ↦ Bytes32.zero) Json.parse (d := .empty) rfl hrun
  refine ⟨hage, hkeeps allFail undisturbed_allFail, by decide +kernel,
    ⟨1, genesis, .new 0 .lifecycle .ok "system"⟩, by decide +kernel, ?_⟩
  have hgone : ∀ n ≤ 1, ¬ (Record.mk 1 genesis (.new 0 .lifecycle .ok "system")).bytes <:+:
      (agedHistory.state.disk.files n).getD [] := by
    decide +kernel
  rintro ⟨n, hn, file, hfile, hin⟩
  refine hgone n hn ?_
  rwa [Option.mem_def.mp hfile]

/-! ## Records lost before their age -/

/-- A rotation whose last step, the opening of the new file, fails. -/
def reopenFails : RotateFaults := { RotateFaults.none with reopen := true }

/-- A rotation that fails writes no record and counts no rotation. -/
theorem eventHistory_of_error {faults : RotateFaults} {h : History} {ev : AuditEvent}
    {s' : WriterState} {e : IoError} (hdue : w.maxBytes ≤ h.state.bytes)
    (hrot : w.rotate faults h.state = (s', .error e)) :
    w.eventHistory blake3 faults h ev = { h with state := s' } := by
  rw [Writer.eventHistory, if_pos hdue, Writer.rotateHistory, hrot]

/-- **Two failures in a row lose everything** a writer with one generation holds: after an
opening that fails, the rotation that the next event causes removes the file that was just
renamed, and fails because there is none to rename. -/
theorem no_files_of_reopenFails (blake3 : Bytes → Bytes32) (hN : w.generations = 1) {h : History}
    (hdue : w.maxBytes ≤ h.state.bytes) (hopen : (h.state.disk.files active).isSome)
    (ev ev' : AuditEvent) :
    ∃ s', w.eventHistory blake3 .none (w.eventHistory blake3 reopenFails h ev) ev'
        = { h with state := s' } ∧ ∀ n ≤ w.generations, s'.disk.files n = none := by
  obtain ⟨s₁, hrot₁, hbytes, hnone₁⟩ : ∃ s₁, w.rotate reopenFails h.state = (s₁, .error .failed) ∧
      s₁.bytes = h.state.bytes ∧ s₁.disk.files active = none := by
    rcases rotate_cases w reopenFails h.state with ⟨hfail | hfail, _⟩ |
      ⟨file, _, hfile, ⟨_, hrot⟩ | ⟨hfail, _⟩⟩
    · cases hfail
    · rw [hfail] at hopen
      cases hopen
    · refine ⟨_, hrot, rfl, ?_⟩
      change ((w.makeRoom reopenFails h.state.disk).rename false active 1).1.files active = none
      rw [Disk.files_rename, files_makeRoom_active, hfile, if_pos ⟨rfl, rfl⟩,
        Function.update_of_ne (by simp [active]), Function.update_self]
    · cases hfail
  have hdue₁ : w.maxBytes ≤ s₁.bytes := by rw [hbytes]; exact hdue
  rw [eventHistory_of_error hdue hrot₁]
  rcases rotate_cases w .none s₁ with ⟨_, e, hrot₂⟩ | ⟨file, _, hfile, _⟩
  · refine ⟨_, eventHistory_of_error hdue₁ hrot₂, fun n hn ↦ ?_⟩
    change (w.makeRoom .none s₁.disk).files n = none
    rw [files_makeRoom_none]
    rcases Nat.eq_zero_or_pos n with rfl | hpos
    · rw [if_pos (.inl rfl)]
      exact hnone₁
    · rw [if_neg (by omega), if_pos (by omega)]
  · rw [hnone₁] at hfile
    cases hfile

/-- **A record is evicted early**: one record is written, the opening in the rotation before the
second fails, and the rotation before the third evicts the first record although no rotation ever
completed. -/
theorem not_forall_evictedByAge :
    ¬ ∀ h, Run (fun _ ↦ Bytes32.zero) Json.parse (.new 400 1) (fun _ _ ↦ True)
      (.start ⟨(Disk.empty.openAppend false active).1, 0, 0, genesis⟩) h →
        EvictedByAge (.new 400 1) h ∧ ∀ faults, ErrorKeeps (.new 400 1) h.state faults := by
  intro hall
  let start := History.start ⟨(Disk.empty.openAppend false active).1, 0, 0, genesis⟩
  have hfirst : (Writer.new 400 1).eventHistory (fun _ ↦ Bytes32.zero) .none start rejected
      = start.write (fun _ ↦ Bytes32.zero) rejected := rfl
  have hdue : (Writer.new 400 1).maxBytes
      ≤ (start.write (fun _ ↦ Bytes32.zero) rejected).state.bytes := by
    obtain ⟨pre, post, hline, _⟩ := line_rejected (r := start.state.record rejected) rfl
    have hsize : ('😀' : Char).utf8Size = 4 := by decide
    change 400 ≤ 0 + (start.state.record rejected).bytes.length
    simp only [Record.bytes, hline, length_encode, byteLen_append, byteLen_replicate, hsize,
      maxFieldLen]
    omega
  obtain ⟨s', hlost, hnone⟩ := no_files_of_reopenFails (fun _ ↦ Bytes32.zero)
    (w := .new 400 1) rfl hdue (by rfl) rejected rejected
  have hrun : Run (fun _ ↦ Bytes32.zero) Json.parse (.new 400 1) (fun _ _ ↦ True) start
      { start.write (fun _ ↦ Bytes32.zero) rejected with state := s' } := by
    rw [← hlost, ← hfirst]
    exact ((Relation.ReflTransGen.single (.event _ _ _ fun _ ↦ trivial)).tail
      (.event _ _ _ fun _ ↦ trivial)).tail (.event _ _ _ fun _ ↦ trivial)
  rcases (hall _ hrun).1 0 (start.state.record rejected) (List.mem_singleton.mpr rfl) with
    ⟨n, hn, file, hfile, _⟩ | hage
  · rw [hnone n hn] at hfile
    cases hfile
  · change 0 + 1 + 1 ≤ 0 at hage
    omega

end

end Vaiexia.Audit
