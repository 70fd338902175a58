import Vaiexia.Audit.Resume
import Vaiexia.Audit.Sink

/-!
# The audit trail over restarts

From `emit` to `verify_chain`: the daemon runs again and again, each time with a sink and a writer
(`Audit.Sink`) on the files that the time before left (`Audit.Resume`).  A session whose writer
cannot open its file receives every event and drops it.

The sessions here are those in which no file operation fails while the writer runs, and whose writer
comes to its end; what an I/O error loses is said in `Audit.LostEvents`.  And the one reason for
which a writer cannot open its file is what the file holds.

`audit_trail` says what the files hold in the end, and of which sessions nothing is in them.
-/

namespace Vaiexia.Audit

open Vaiexia.Lib

/-- What became of a session: the state in which its writer was done, or the events that were
accepted and dropped. -/
inductive SessionEnd (ι : Type) where
  | recorded (s : SinkState ι)
  | disabled (sent : List AuditEvent)

namespace SessionEnd

variable {ι : Type}

/-- What was written. -/
def written : SessionEnd ι → List BatchEntry
  | recorded s => s.out.flatten
  | disabled _ => []

/-- The writer was never started. -/
def Disabled : SessionEnd ι → Prop
  | recorded _ => False
  | disabled _ => True

end SessionEnd

/-- Sessions one after another, from no files on, and the files that they leave.  One that is
recorded has met no I/O error, and its writer is done (the daemon waits three seconds for it); one
that is not has an active file that `WriterState::open` does not accept. -/
inductive Sessions {ι : Type} [DecidableEq ι] (blake3 : Bytes → Bytes32)
    (fromStr : List Char → Option Json) (w : Writer) (capacity : Nat) :
    List (SessionEnd ι) → Disk Nat → Prop
  | nil : Sessions blake3 fromStr w capacity [] .empty
  | recorded {ends : List (SessionEnd ι)} {d : Disk Nat} {file : WriterState} {s : SinkState ι}
      (h : Sessions blake3 fromStr w capacity ends d)
      (hopen : WriterState.open blake3 fromStr d = .ok file)
      (hrun : SinkRun blake3 w capacity (.start file) s) (hdone : s.pc = .done) :
      Sessions blake3 fromStr w capacity (ends ++ [.recorded s]) s.file.disk
  | disabled {ends : List (SessionEnd ι)} {d : Disk Nat} {e : IoError}
      (h : Sessions blake3 fromStr w capacity ends d)
      (hopen : WriterState.open blake3 fromStr d = .error e) (sent : List AuditEvent) :
      Sessions blake3 fromStr w capacity (ends ++ [.disabled sent]) d

/-- What a session that was recorded has of the events whose emit had returned when its end came:
those that were accepted are the first ones that were written, and those that were refused are the
first ones that loss records stand for. -/
structure Complete {ι : Type} (s : SinkState ι) (sent₀ lost₀ : List AuditEvent) : Prop where
  ended : s.ghost.ended = some (sent₀, lost₀)
  sent : sent₀ <+: events s.out.flatten
  nothingElse : events s.out.flatten <+: s.ghost.sent
  lost : lost₀ <+: lostOf s.out.flatten

section

variable {ι : Type} [DecidableEq ι] {blake3 : Bytes → Bytes32} {fromStr : List Char → Option Json}
  {w : Writer} {capacity : Nat}

/-- The writer is done: it has written what it took. -/
theorem complete_of_done {file₀ : WriterState} {s : SinkState ι}
    (hrun : SinkRun blake3 w capacity (.start file₀) s) (hdone : s.pc = .done) :
    ∃ sent₀ lost₀, Complete s sent₀ lost₀ := by
  have hinv := hrun.inv
  have htaken : s.taken = s.out.flatten := by rw [SinkState.taken, hinv.done hdone, List.append_nil]
  have hpast : s.Past := .inr (.inr (.inr (.inr hdone)))
  obtain ⟨⟨sent₀, lost₀⟩, hend⟩ := Option.ne_none_iff_exists'.mp (hinv.reason (.inl hpast))
  have howes := hinv.owes sent₀ lost₀ hend
  have hsent := howes.past hpast
  have hlost := howes.settled (.inr hdone)
  rw [htaken] at hsent hlost
  refine ⟨sent₀, lost₀, hend, hsent, ?_, hlost⟩
  rw [hinv.sent, htaken]
  exact List.prefix_append _ _

/-- A session adds its records to the log. -/
theorem consistent_session {file₀ : WriterState} {s : SinkState ι}
    (hrun : SinkRun blake3 w capacity (.start file₀) s) {log : SegmentedLog Record}
    (hlog : Consistent blake3 w log file₀) (hlen : file₀.seq + s.out.flatten.length < 2 ^ 64) :
    ∃ rs : List Record, rs.map Record.event = s.out.flatten.map BatchEntry.toEvent ∧
      Consistent blake3 w (log.pushAll w.full rs) s.file := by
  have hbatches : (s.out.map (List.map BatchEntry.toEvent)).flatten
      = s.out.flatten.map BatchEntry.toEvent := List.map_flatten.symm
  obtain ⟨rs, hrs, hconsistent⟩ := consistent_writeBatches
    (s.out.map (List.map BatchEntry.toEvent)) hlog (by rw [hbatches, List.length_map]; exact hlen)
  refine ⟨rs, hrs.trans hbatches, ?_⟩
  rw [hrun.inv.file]
  simpa [List.map_map, Function.comp_def] using hconsistent

/-- What a log that was written from nothing leaves is accepted and linked. -/
theorem agrees_of_consistent (hread : Json.ReadsBack fromStr) (hmax : 1 ≤ w.maxBytes)
    {rs : List Record} {s : WriterState} (hlt : rs.length < 2 ^ 64)
    (h : Consistent blake3 w (SegmentedLog.empty.pushAll w.full rs) s) :
    Agrees blake3 fromStr w (SegmentedLog.empty.pushAll w.full rs) s.disk where
  keeps := h.files
  accepted := fun n hn seg hseg ↦ verifyChain_of_consistent hread h (by simpa using hlt) hn hseg
  linked := by
    intro n _ newer hnew older hold
    have hclosed : (SegmentedLog.empty.pushAll w.full rs).closed ≠ [] := by
      intro hnil
      rw [SegmentedLog.segments, hnil] at hold
      cases hold
    have hne := SegmentedLog.ne_nil_of_mem_segments (Writer.full_nil hmax) hclosed
    have hfirst := List.head?_eq_some_head (hne newer (List.mem_of_getElem? hnew))
    have hlast := List.getLast?_eq_some_getLast (hne older (List.mem_of_getElem? hold))
    refine ⟨_, hfirst, _, hlast, ?_⟩
    exact (SegmentedLog.link_of_segments h.numbered.chain hnew hold _ hlast _ hfirst).2
  suffix := SegmentedLog.written_eq_append _ _

/-- A file of records that can be opened is aligned. -/
theorem aligned_of_open {log : SegmentedLog Record} {d : Disk Nat} (h : LeftBy blake3 w log d)
    {s : WriterState} (hopen : WriterState.open blake3 fromStr d = .ok s) :
    ∀ file ∈ d.files active, Aligned file := by
  intro file hfile
  rcases h with ⟨-, hnone⟩ | ⟨s', rfl, hs'⟩
  · rw [hnone] at hfile
    cases hfile
  · rw [hs'.file_active] at hfile
    obtain rfl := Option.some.inj hfile
    by_contra hnot
    have hne : (fileBytes log.current).length ≠ 0 := fun hzero ↦
      hnot (.inl (by rw [hzero]; exact Nat.zero_le _))
    rw [WriterState.open, hs'.file_active] at hopen
    simp only [if_neg hne] at hopen
    rw [fileBytes] at hnot hopen
    rw [lastLineMeta_of_not_aligned hnot] at hopen
    cases hopen

/-- A session goes on with the log exactly if it finds an aligned file. -/
theorem exists_open_iff (hread : Json.ReadsBack fromStr) {rs : List Record} {d : Disk Nat}
    (h : LeftBy blake3 w (SegmentedLog.empty.pushAll w.full rs) d) (hlt : rs.length < 2 ^ 64) :
    (∃ s, WriterState.open blake3 fromStr d = .ok s) ↔ ∀ file ∈ d.files active, Aligned file := by
  constructor
  · rintro ⟨s, hopen⟩
    exact aligned_of_open h hopen
  · intro haligned
    obtain ⟨s, hopen, -⟩ := consistent_open hread h hlt haligned
    exact ⟨s, hopen⟩

/-- **Sessions keep the log.** -/
theorem Sessions.leftBy (hread : Json.ReadsBack fromStr) {ends : List (SessionEnd ι)}
    {d : Disk Nat} (h : Sessions blake3 fromStr w capacity ends d)
    (hlen : (ends.flatMap SessionEnd.written).length < 2 ^ 64) :
    ∃ rs : List Record,
      rs.map Record.event = (ends.flatMap SessionEnd.written).map BatchEntry.toEvent ∧
        LeftBy blake3 w (SegmentedLog.empty.pushAll w.full rs) d := by
  induction h with
  | nil => exact ⟨[], rfl, .inl ⟨rfl, fun _ ↦ rfl⟩⟩
  | @recorded ends d file s _ hopen hrun _ ih =>
      simp only [List.flatMap_append, List.flatMap_cons, List.flatMap_nil, List.append_nil,
        List.length_append, SessionEnd.written] at hlen ⊢
      obtain ⟨rs, hrs, hleft⟩ := ih (by omega)
      have hcount : rs.length = (ends.flatMap SessionEnd.written).length := by
        simpa using congrArg List.length hrs
      obtain ⟨s', hopen', hs'⟩ :=
        consistent_open hread hleft (by omega) (aligned_of_open hleft hopen)
      cases hopen.symm.trans hopen'
      have hseq : file.seq = rs.length := by rw [hs'.seq]; simp
      obtain ⟨rs', hrs', hend⟩ := consistent_session hrun hs' (by omega)
      refine ⟨rs ++ rs', by rw [List.map_append, List.map_append, hrs, hrs'],
        .inr ⟨s.file, rfl, ?_⟩⟩
      rw [SegmentedLog.pushAll_append]
      exact hend
  | @disabled ends d e _ hopen sent ih =>
      simpa [SessionEnd.written] using ih (by simpa [SessionEnd.written] using hlen)

/-- A file that cannot be opened stays, and so does the writer without it. -/
theorem Sessions.disabled_forever {ends : List (SessionEnd ι)} {d : Disk Nat}
    (h : Sessions blake3 fromStr w capacity ends d) :
    (∀ before x after, ends = before ++ x :: after → x.Disabled → ∀ y ∈ after, y.Disabled) ∧
      ((∃ x ∈ ends, x.Disabled) → ∃ e, WriterState.open blake3 fromStr d = .error e) := by
  induction h with
  | nil => exact ⟨by simp, by simp⟩
  | @recorded ends d file s _ hopen _ _ ih =>
      have hnone : ∀ x ∈ ends, ¬ x.Disabled := by
        intro x hx hdisabled
        obtain ⟨e, herror⟩ := ih.2 ⟨x, hx, hdisabled⟩
        cases hopen.symm.trans herror
      have hall : ∀ x ∈ ends ++ [.recorded s], ¬ x.Disabled := by
        intro x hx
        rcases List.mem_append.mp hx with hx | hx
        · exact hnone x hx
        · rw [List.mem_singleton.mp hx]
          exact id
      refine ⟨fun before x after hsplit hdisabled ↦ ?_, fun ⟨x, hx, hdisabled⟩ ↦ ?_⟩
      · exact absurd hdisabled (hall x (by simp [hsplit]))
      · exact absurd hdisabled (hall x hx)
  | @disabled ends d e _ hopen sent ih =>
      refine ⟨fun before x after hsplit hdisabled y hy ↦ ?_, fun _ ↦ ⟨e, hopen⟩⟩
      rcases List.eq_nil_or_concat after with rfl | ⟨init, last, rfl⟩
      · cases hy
      · rw [List.concat_eq_append, ← List.cons_append, ← List.append_assoc] at hsplit
        obtain ⟨hinit, hlast⟩ := List.append_inj' hsplit rfl
        rw [List.concat_eq_append] at hy
        rcases List.mem_append.mp hy with hy | hy
        · exact ih.1 before x init hinit hdisabled y hy
        · rw [List.mem_singleton.mp hy, ← List.singleton_inj.mp hlast]
          trivial

/-- Every session that was recorded was a run to its end. -/
theorem Sessions.complete {ends : List (SessionEnd ι)} {d : Disk Nat}
    (h : Sessions blake3 fromStr w capacity ends d) {s : SinkState ι}
    (hs : .recorded s ∈ ends) : ∃ sent₀ lost₀, Complete s sent₀ lost₀ := by
  induction h with
  | nil => cases hs
  | recorded _ _ hrun hdone ih =>
      rcases List.mem_append.mp hs with hs | hs
      · exact ih hs
      · cases List.mem_singleton.mp hs
        exact complete_of_done hrun hdone
  | disabled _ _ _ ih =>
      rcases List.mem_append.mp hs with hs | hs
      · exact ih hs
      · cases List.mem_singleton.mp hs

/-- **The audit trail over restarts.**  Whatever threads emit, in any number of sessions without I/O
errors, below 2^64 records: the files hold one record for each event and each loss record of the
sessions that were recorded, in their order, the last ones of a chain that `verify_chain` accepts
file by file; each of these sessions has lost no event without a record; and the others, whose open
failed for what the active file holds, are the last ones, from the first that finds one that is
longer than 64 KiB and has a character across the offset 64 KiB before its end. -/
theorem audit_trail (hread : Json.ReadsBack fromStr) (hmax : 1 ≤ w.maxBytes)
    {ends : List (SessionEnd ι)} {d : Disk Nat}
    (h : Sessions blake3 fromStr w capacity ends d)
    (hlen : (ends.flatMap SessionEnd.written).length < 2 ^ 64) :
    (∃ rs : List Record,
      rs.map Record.event = (ends.flatMap SessionEnd.written).map BatchEntry.toEvent ∧
        (rs = [] ∨ Agrees blake3 fromStr w (SegmentedLog.empty.pushAll w.full rs) d)) ∧
      (∀ s, .recorded s ∈ ends → ∃ sent₀ lost₀, Complete s sent₀ lost₀) ∧
      (∀ before x after, ends = before ++ x :: after → x.Disabled → ∀ y ∈ after, y.Disabled) ∧
      ((∃ s, WriterState.open blake3 fromStr d = .ok s) ↔
        ∀ file ∈ d.files active, Aligned file) := by
  obtain ⟨rs, hrs, hleft⟩ := h.leftBy hread hlen
  have hlt : rs.length < 2 ^ 64 := by
    have hcount : rs.length = (ends.flatMap SessionEnd.written).length := by
      simpa using congrArg List.length hrs
    omega
  refine ⟨⟨rs, hrs, ?_⟩, fun s hs ↦ h.complete hs, h.disabled_forever.1,
    exists_open_iff hread hleft hlt⟩
  rcases hleft with ⟨hempty, -⟩ | ⟨s, rfl, hs⟩
  · exact .inl (by simpa using congrArg SegmentedLog.written hempty)
  · exact .inr (agrees_of_consistent hread hmax hlt hs)

end

/-- A file of one record is short enough to be read from its start. -/
theorem aligned_of_leftBy_singleton {blake3 : Bytes → Bytes32} {w : Writer} {r : Record}
    {d : Disk Nat} (h : LeftBy blake3 w (SegmentedLog.empty.pushAll w.full [r]) d) :
    ∀ file ∈ d.files active, Aligned file := by
  have hcurrent : (SegmentedLog.empty.pushAll w.full [r]).current = [r] := by
    rw [SegmentedLog.pushAll_cons, SegmentedLog.push]
    split <;> rfl
  intro file hfile
  rcases h with ⟨-, hnone⟩ | ⟨s, rfl, hs⟩
  · rw [hnone] at hfile
    cases hfile
  · have hseq : r.seq ≤ 1 := by
      have hle := hs.numbered.seq_le (r := r) (by simp)
      simpa using hle
    have hline := Record.byteLen_line_lt (r := r) (by omega)
    rw [hs.file_active, hcurrent] at hfile
    obtain rfl := Option.some.inj hfile
    refine .inl ?_
    rw [length_fileBytes, tailLen]
    simp only [List.map_cons, List.map_nil, List.sum_cons, List.sum_nil]
    omega

/-- A session in which one event is emitted. -/
theorem exists_started_session (blake3 : Bytes → Bytes32) (w : Writer) (file : WriterState) :
    ∃ s : SinkState Unit, SinkRun blake3 w 1 (.start file) s ∧ s.pc = .done ∧
      s.out = [[.event startedEvent]] := by
  have hemit : SinkRun blake3 w 1 (.start file : SinkState Unit) _ :=
    .single (.inl ⟨(), .accept startedEvent rfl rfl Nat.zero_lt_one (by rintro ⟨⟩)⟩)
  have hwrite := ((hemit.tail (.inr (.inr (.swap 0 rfl)))).tail
    (.inr (.inr (.blockingRecv rfl rfl rfl)))).tail
    (.inr (.inr (.tryRecvNone rfl (by decide : 1 < 64) rfl)))
  have hshutdown := (hwrite.tail (.inr (.inr (.writeBatch rfl)))).tail
    (.inl ⟨(), .shutdown rfl rfl Nat.zero_lt_one (by rintro ⟨⟩)⟩)
  have hdrain := (hshutdown.tail (.inr (.inr (.swap 0 rfl)))).tail
    (.inr (.inr (.blockingRecvShutdown rfl rfl rfl)))
  have hdone := ((hdrain.tail (.inr (.inr (.drainNone rfl rfl)))).tail
    (.inr (.inr (.lastSwap 0 rfl)))).tail (.inr (.inr (.nothingLeft rfl rfl)))
  exact ⟨_, hdone, rfl, rfl⟩

/-- Two sessions of one event each. -/
theorem audit_trail_twoSessions :
    ∃ (ends : List (SessionEnd Unit)) (d : Disk Nat),
      Sessions (fun _ ↦ Bytes32.zero) Json.parse (.new 400 2) 1 ends d ∧ ends.length = 2 ∧
        ∃ rs : List Record, rs.map Record.event = [startedEvent, startedEvent] ∧
          Agrees (fun _ ↦ Bytes32.zero) Json.parse (.new 400 2)
            (SegmentedLog.empty.pushAll (Writer.new 400 2).full rs) d := by
  let blake3 : Bytes → Bytes32 := fun _ ↦ Bytes32.zero
  let w := Writer.new 400 2
  have hread := Json.readsBack_parse
  have hwritten : ∀ {s : SinkState Unit}, s.out = [[.event startedEvent]] →
      (SessionEnd.recorded s).written = [.event startedEvent] := fun hout ↦
    congrArg List.flatten hout
  obtain ⟨first, hfirst, hdone, hout⟩ := exists_started_session blake3 w emptyFile
  have hone : Sessions blake3 Json.parse w 1 [.recorded first] first.file.disk :=
    Sessions.nil.recorded rfl hfirst hdone
  -- the file that the first session leaves can be opened
  obtain ⟨rs₁, hrs₁, hleft⟩ := hone.leftBy hread (by simp [hwritten hout])
  obtain ⟨r, rfl⟩ : ∃ r, rs₁ = [r] := by
    refine List.length_eq_one_iff.mp ?_
    rw [← List.length_map Record.event, hrs₁]
    simp [hwritten hout]
  obtain ⟨file, hopen, -⟩ := consistent_open hread hleft (by simp)
    (aligned_of_leftBy_singleton hleft)
  obtain ⟨second, hsecond, hdone', hout'⟩ := exists_started_session blake3 w file
  have htwo : Sessions blake3 Json.parse w 1 ([.recorded first] ++ [.recorded second])
      second.file.disk := hone.recorded hopen hsecond hdone'
  have hentries : ([SessionEnd.recorded first] ++ [SessionEnd.recorded second]).flatMap
      SessionEnd.written = [.event startedEvent, .event startedEvent] := by
    simp [hwritten hout, hwritten hout']
  obtain ⟨⟨rs, hrs, hagrees⟩, -⟩ := audit_trail hread (by decide) htwo (by
    rw [hentries]
    decide)
  rw [hentries] at hrs
  rcases hagrees with rfl | hagrees
  · cases hrs
  · exact ⟨_, _, htwo, rfl, rs, hrs, hagrees⟩

end Vaiexia.Audit
