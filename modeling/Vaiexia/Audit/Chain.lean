import Vaiexia.Lib.JsonParse
import Vaiexia.Lib.SegmentedLog
import Vaiexia.Audit.Writer

/-!
# The writer refines a segmented log

On a file system that works the writer keeps the newest segments of a `SegmentedLog` of records
in its files, the open segment in the active file.  `Consistent` is the invariant: it says which
file holds which segment, and that the writer's counter and link are those of the last record
ever written, across rotations.  One event preserves it (`consistent_writeEvent`), and so does
every run of batches (`consistent_writeBatches`).

What the verifier says about the files follows from the invariant alone.
-/

namespace Vaiexia.Audit

open Vaiexia.Lib Utf8

/-! ## Files of records -/

/-- The content of a file that holds these records. -/
def fileBytes (rs : List Record) : Bytes := encode (Text.unlines (rs.map Record.line))

@[simp] theorem fileBytes_nil : fileBytes [] = [] := rfl

theorem fileBytes_append (rs : List Record) (r : Record) :
    fileBytes (rs ++ [r]) = fileBytes rs ++ r.bytes := by
  simp [fileBytes, Record.bytes]

theorem fileBytes_ne_nil {rs : List Record} (h : rs ≠ []) : fileBytes rs ≠ [] := by
  intro hnil
  cases rs with
  | nil => exact h rfl
  | cons r rs =>
      have hlen := congrArg List.length hnil
      have hnl : ('\n' : Char).utf8Size = 1 := by decide
      simp [fileBytes, hnl] at hlen

/-- The size of a file of records, line by line. -/
theorem length_fileBytes (rs : List Record) :
    (fileBytes rs).length = (rs.map fun r ↦ byteLen r.line + 1).sum := by
  have hnl : ('\n' : Char).utf8Size = 1 := by decide
  induction rs with
  | nil => rfl
  | cons r rs ih =>
      rw [List.map_cons, List.sum_cons, ← ih]
      simp only [fileBytes, List.map_cons, Text.unlines_cons, length_encode, byteLen_append,
        byteLen_cons, hnl]
      omega

/-- A file of records is closed at the size the writer was told. -/
def Writer.full (w : Writer) (rs : List Record) : Bool := w.maxBytes ≤ (fileBytes rs).length

theorem Writer.full_nil {w : Writer} (h : 1 ≤ w.maxBytes) : w.full [] = false := by
  simp only [Writer.full, fileBytes_nil, List.length_nil]
  exact decide_eq_false (by omega)

/-- **The verifier accepts a file of records** that follow each other, and counts them. -/
theorem verifyChain_fileBytes {blake3 : Bytes → Bytes32} {fromStr : List Char → Option Json}
    (hread : Json.ReadsBack fromStr) {rs : List Record} (hrs : ∀ r ∈ rs, r.seq < 2 ^ 64)
    (hchain : rs.IsChain (Follows blake3)) :
    verifyChain blake3 fromStr (some (fileBytes rs)) = .ok rs.length := by
  rw [verifyChain, Option.bind_some, fileBytes, decode_encode]
  exact verifyChainStr_unlines hread hrs hchain

/-! ## The invariant -/

/-- The directory holds the newest segments of the log, one in the active file and one in each
generation, and nothing else. -/
def Keeps (w : Writer) (log : SegmentedLog Record) (d : Disk Nat) : Prop :=
  ∀ n, d.files n = if n ≤ w.generations then (log.segments[n]?).map fileBytes else none

/-- The link that the next record carries. -/
def nextPrev (blake3 : Bytes → Bytes32) (rs : List Record) : Link :=
  (rs.getLast?.map fun r ↦ lineHash blake3 r.line).getD genesis

/-- The records are numbered from one and each is linked to the one before. -/
structure Numbered (blake3 : Bytes → Bytes32) (rs : List Record) : Prop where
  seqs : rs.map Record.seq = List.range' 1 rs.length
  chain : rs.IsChain (Follows blake3)

/-- The state of the writer belongs to the log. -/
structure Consistent (blake3 : Bytes → Bytes32) (w : Writer) (log : SegmentedLog Record)
    (s : WriterState) : Prop where
  files : Keeps w log s.disk
  handle : s.disk.handle = some active
  bytes : s.bytes = (fileBytes log.current).length
  numbered : Numbered blake3 log.written
  seq : s.seq = log.written.length
  prev : s.prev = nextPrev blake3 log.written

section

variable {blake3 : Bytes → Bytes32} {w : Writer} {log : SegmentedLog Record}

theorem Numbered.seq_le {rs : List Record} (h : Numbered blake3 rs) {r : Record} (hr : r ∈ rs) :
    r.seq ≤ rs.length := by
  have hmem : r.seq ∈ List.range' 1 rs.length := h.seqs ▸ List.mem_map_of_mem hr
  have := List.mem_range'_1.mp hmem
  omega

/-- The last of the numbered records carries their count. -/
theorem Numbered.seq_getLast {rs : List Record} (h : Numbered blake3 rs) {r : Record}
    (hr : r ∈ rs.getLast?) : r.seq = rs.length := by
  have hlast := congrArg List.getLast? h.seqs
  have hne : rs.length ≠ 0 := by
    intro h0
    rw [List.eq_nil_of_length_eq_zero h0] at hr
    cases hr
  rw [List.getLast?_map, Option.mem_def.mp hr, List.getLast?_range', if_neg hne] at hlast
  have := Option.some.inj hlast
  omega

/-- The next record continues the numbering and the chain. -/
theorem Numbered.snoc {rs : List Record} (h : Numbered blake3 rs) {r : Record}
    (hseq : r.seq = rs.length + 1) (hprev : r.prev = nextPrev blake3 rs) :
    Numbered blake3 (rs ++ [r]) where
  seqs := by
    rw [List.map_append, h.seqs, List.length_append, List.length_singleton, List.range'_concat]
    simp only [List.map_cons, List.map_nil, hseq]
    congr 2
    omega
  chain := by
    refine List.isChain_append.mpr ⟨h.chain, List.isChain_singleton r, ?_⟩
    intro x hx y hy
    obtain rfl : r = y := by simpa using hy
    refine ⟨?_, ?_⟩
    · rw [hseq, h.seq_getLast hx]
    · rw [hprev, nextPrev, Option.mem_def.mp hx]
      rfl

theorem Consistent.file_active {s : WriterState} (h : Consistent blake3 w log s) :
    s.disk.files active = some (fileBytes log.current) := by
  rw [h.files]
  rfl

/-- The writer starts with the log that has no records. -/
theorem consistent_start {d : Disk Nat} (hfiles : ∀ n, d.files n = none) :
    Consistent blake3 w .empty
      { disk := (d.openAppend false active).1, bytes := 0, seq := 0, prev := genesis } where
  files := by
    intro n
    simp only [Disk.openAppend, Bool.false_eq_true, if_false, Function.update_apply, hfiles,
      SegmentedLog.segments, SegmentedLog.empty]
    cases n with
    | zero => simp [active]
    | succ n => simp [active]
  handle := rfl
  bytes := rfl
  numbered := { seqs := rfl, chain := List.isChain_nil }
  seq := rfl
  prev := rfl

/-! ## One event -/

/-- A rotation closes the open segment. -/
theorem consistent_rotate {s : WriterState} (h : Consistent blake3 w log s) :
    ∃ s', w.rotate .none s = (s', .ok ()) ∧ Consistent blake3 w log.rotate s' := by
  have hfile := h.file_active
  rcases rotate_cases w .none s with ⟨hfail | hfail, _⟩ | ⟨file, _, hfile', hrot | hrot⟩
  · cases hfail
  · rw [hfile] at hfail
    cases hfail
  · cases hrot.1
  · refine ⟨_, hrot.2, ?_, rfl, rfl, ?_, ?_, ?_⟩
    · intro n
      have hN := w.generations_pos
      rw [files_rotate_ok hfile, files_makeRoom_none]
      match n with
      | 0 => simp [active, SegmentedLog.rotate, SegmentedLog.segments]
      | 1 => simp [active, SegmentedLog.rotate, SegmentedLog.segments, hN]
      | n + 2 =>
          have hseg : log.rotate.segments[n + 2]? = log.segments[n + 1]? := rfl
          rw [if_neg (by simp [active]), if_neg (by omega), hseg, h.files, h.files]
          by_cases hn : n + 2 ≤ w.generations
          · rw [if_neg (by omega), if_neg (by omega), if_pos hn]
            exact if_pos (by omega)
          · rw [if_pos (by omega)]
            simp only [hn, if_false]
    · simpa using h.numbered
    · simpa using h.seq
    · simpa using h.prev

/-- Writing a record adds it to the open segment. -/
theorem consistent_write {s : WriterState} (h : Consistent blake3 w log s) (ev : AuditEvent)
    (hlt : s.seq + 1 < 2 ^ 64) :
    Consistent blake3 w (log.append (s.record ev)) (s.write blake3 ev) where
  files := by
    intro n
    rw [WriterState.write, Disk.files_append _ h.handle, Function.update_apply]
    cases n with
    | zero =>
        refine (if_pos rfl).trans ?_
        rw [h.file_active]
        simp [SegmentedLog.append, SegmentedLog.segments, fileBytes_append]
    | succ n =>
        rw [if_neg (by simp [active]), h.files]
        rfl
  handle := by simp [WriterState.write, h.handle]
  bytes := by
    simp [WriterState.write, SegmentedLog.append, fileBytes_append, h.bytes]
  numbered := by
    rw [SegmentedLog.written_append]
    refine h.numbered.snoc ?_ h.prev
    rw [WriterState.record, ← h.seq]
    exact Nat.mod_eq_of_lt hlt
  seq := by
    simp only [WriterState.write, WriterState.record, SegmentedLog.written_append,
      List.length_append, List.length_singleton, ← h.seq]
    exact Nat.mod_eq_of_lt hlt
  prev := by simp [WriterState.write, nextPrev]

/-- **One event** adds one record to the log, after closing a full segment. -/
theorem consistent_writeEvent {s : WriterState} (h : Consistent blake3 w log s)
    (ev : AuditEvent) (hlt : s.seq + 1 < 2 ^ 64) :
    ∃ s' r, w.writeEvent blake3 .none s ev = (s', .ok ()) ∧ r.event = ev ∧
      Consistent blake3 w (log.push w.full r) s' := by
  have hfull : w.full log.current = decide (w.maxBytes ≤ s.bytes) := by rw [h.bytes]; rfl
  by_cases hdue : w.maxBytes ≤ s.bytes
  · obtain ⟨s₁, hrot, hs₁⟩ := consistent_rotate h
    have hseq : s₁.seq = s.seq := by rw [hs₁.seq, h.seq, SegmentedLog.written_rotate]
    refine ⟨s₁.write blake3 ev, s₁.record ev, ?_, rfl, ?_⟩
    · rw [Writer.writeEvent, if_pos hdue, hrot]
    · rw [SegmentedLog.push, hfull, if_pos (by simpa using hdue)]
      exact consistent_write hs₁ ev (hseq ▸ hlt)
  · refine ⟨s.write blake3 ev, s.record ev, ?_, rfl, ?_⟩
    · rw [Writer.writeEvent, if_neg hdue]
    · rw [SegmentedLog.push, hfull, if_neg (by simpa using hdue)]
      exact consistent_write h ev hlt

/-! ## Whole runs -/

/-- Events whose rotations do not fail. -/
def withoutFaults (batch : List AuditEvent) : List (AuditEvent × RotateFaults) :=
  batch.map fun ev ↦ (ev, .none)

/-- A batch adds one record for each of its events. -/
theorem consistent_writeBatch (batch : List AuditEvent) {log : SegmentedLog Record}
    {s : WriterState} (h : Consistent blake3 w log s) (hlt : s.seq + batch.length < 2 ^ 64) :
    ∃ s' rs, w.writeBatch blake3 s (withoutFaults batch) = (s', .ok ()) ∧
      rs.map Record.event = batch ∧ Consistent blake3 w (log.pushAll w.full rs) s' := by
  induction batch generalizing log s with
  | nil => exact ⟨s, [], rfl, rfl, h⟩
  | cons ev batch ih =>
      rw [List.length_cons] at hlt
      obtain ⟨s₁, r, hwrite, hev, hs₁⟩ := consistent_writeEvent h ev (by omega)
      have hseq : s₁.seq = s.seq + 1 := by
        rw [hs₁.seq, h.seq, SegmentedLog.written_push, List.length_append, List.length_singleton]
      obtain ⟨s₂, rs, hbatch, hevs, hs₂⟩ := ih hs₁ (by omega)
      refine ⟨s₂, r :: rs, ?_, by rw [List.map_cons, hev, hevs], hs₂⟩
      rw [withoutFaults, List.map_cons, Writer.writeBatch, hwrite]
      exact hbatch

/-- **Every run of batches** adds one record for each event, in order. -/
theorem consistent_writeBatches (batches : List (List AuditEvent)) {log : SegmentedLog Record}
    {s : WriterState} (h : Consistent blake3 w log s)
    (hlt : s.seq + batches.flatten.length < 2 ^ 64) :
    ∃ rs, rs.map Record.event = batches.flatten ∧
      Consistent blake3 w (log.pushAll w.full rs)
        (w.writeBatches blake3 s (batches.map withoutFaults)) := by
  induction batches generalizing log s with
  | nil => exact ⟨[], rfl, h⟩
  | cons batch batches ih =>
      rw [List.flatten_cons, List.length_append] at hlt
      obtain ⟨s₁, rs, hbatch, hevs, hs₁⟩ := consistent_writeBatch batch h (by omega)
      have hlen : rs.length = batch.length := by rw [← hevs, List.length_map]
      have hseq : s₁.seq = s.seq + batch.length := by
        rw [hs₁.seq, h.seq, SegmentedLog.written_pushAll, List.length_append, hlen]
      obtain ⟨rs', hevs', hs'⟩ := ih hs₁ (by omega)
      refine ⟨rs ++ rs', ?_, ?_⟩
      · rw [List.map_append, hevs, hevs', List.flatten_cons]
      · rw [SegmentedLog.pushAll_append, List.map_cons, Writer.writeBatches, List.foldl_cons,
          hbatch]
        exact hs'

/-! ## What the verifier says about the files -/

variable (blake3) in
/-- The files agree with the log: the verifier accepts each of them and counts its records, the
first record of a file is linked to the last record of the next older one, and the kept records
are the end of the log, what was dropped being the segments beyond the last generation. -/
structure Agrees (fromStr : List Char → Option Json) (w : Writer) (log : SegmentedLog Record)
    (d : Disk Nat) : Prop where
  keeps : Keeps w log d
  accepted : ∀ n ≤ w.generations, ∀ seg ∈ log.segments[n]?,
    verifyChain blake3 fromStr (d.files n) = .ok seg.length
  linked : ∀ n, n + 1 ≤ w.generations → ∀ newer ∈ log.segments[n]?,
    ∀ older ∈ log.segments[n + 1]?, ∃ first ∈ newer.head?, ∃ last ∈ older.getLast?,
      first.prev = lineHash blake3 last.line
  suffix : log.written = (log.segments.drop (w.generations + 1)).reverse.flatten
    ++ (log.segments.take (w.generations + 1)).reverse.flatten

theorem mem_written_of_mem_segment {r : Record} {seg : List Record} (hseg : seg ∈ log.segments)
    (hr : r ∈ seg) : r ∈ log.written :=
  List.mem_flatten.mpr ⟨seg, List.mem_reverse.mpr hseg, hr⟩

/-- Every file of a consistent state is accepted. -/
theorem verifyChain_of_consistent {fromStr : List Char → Option Json}
    (hread : Json.ReadsBack fromStr) {s : WriterState} (h : Consistent blake3 w log s)
    (hlt : log.written.length < 2 ^ 64) {n : Nat} (hn : n ≤ w.generations) {seg : List Record}
    (hseg : seg ∈ log.segments[n]?) :
    verifyChain blake3 fromStr (s.disk.files n) = .ok seg.length := by
  have hmem : seg ∈ log.segments := List.mem_of_getElem? hseg
  rw [h.files, if_pos hn, Option.mem_def.mp hseg, Option.map_some]
  refine verifyChain_fileBytes hread (fun r hr ↦ ?_)
    (SegmentedLog.isChain_of_mem_segments h.numbered.chain hmem)
  have := h.numbered.seq_le (mem_written_of_mem_segment hmem hr)
  omega

/-- **Writer and verifier agree.**  Whatever events are written, in whatever batches, from no
file on: the files hold the newest segments of the log of all records, one record for each
event, and the verifier and the log agree about them. -/
theorem writeBatch_agrees_with_verifyChain (blake3 : Bytes → Bytes32)
    {fromStr : List Char → Option Json} (hread : Json.ReadsBack fromStr) (w : Writer)
    (hmax : 1 ≤ w.maxBytes) (batches : List (List AuditEvent))
    (hlen : batches.flatten.length < 2 ^ 64) :
    ∃ rs : List Record, rs.map Record.event = batches.flatten ∧
      Agrees blake3 fromStr w (SegmentedLog.empty.pushAll w.full rs)
        (w.run blake3 fromStr .empty (batches.map withoutFaults)) := by
  have hstart : Consistent blake3 w .empty _ := consistent_start (d := .empty) fun _ ↦ rfl
  obtain ⟨rs, hevs, hend⟩ := consistent_writeBatches batches hstart (by simpa using hlen)
  have hcount : rs.length = batches.flatten.length := by rw [← hevs, List.length_map]
  have hwritten : (SegmentedLog.empty.pushAll w.full rs).written.length < 2 ^ 64 := by
    rw [SegmentedLog.written_pushAll, SegmentedLog.written_empty, List.nil_append, hcount]
    exact hlen
  refine ⟨rs, hevs, hend.files, ?_, ?_, SegmentedLog.written_eq_append _ _⟩
  · intro n hn seg hseg
    exact verifyChain_of_consistent hread hend hwritten hn hseg
  · intro n _ newer hnew older hold
    have hclosed : (SegmentedLog.empty.pushAll w.full rs).closed ≠ [] := by
      intro hnil
      have hnone : (SegmentedLog.empty.pushAll w.full rs).segments[n + 1]? = none := by
        simp [SegmentedLog.segments, hnil]
      rw [hnone] at hold
      cases hold
    have hne := SegmentedLog.ne_nil_of_mem_segments (Writer.full_nil hmax) hclosed
    have hnewer : newer ≠ [] := hne newer (List.mem_of_getElem? hnew)
    have holder : older ≠ [] := hne older (List.mem_of_getElem? hold)
    have hfirst := List.head?_eq_some_head hnewer
    have hlast := List.getLast?_eq_some_getLast holder
    refine ⟨_, hfirst, _, hlast, ?_⟩
    exact (SegmentedLog.link_of_segments hend.numbered.chain hnew hold _ hlast _ hfirst).2

theorem writeBatch_agrees_with_verifyChain_twoBatches :
    ∃ rs : List Record,
      rs.map Record.event =
        [[AuditEvent.new 0 .mutation .ok "user:admin"], [.new 1 .priv .err "system"]].flatten ∧
      Agrees (fun _ ↦ Bytes32.zero) Json.parse (.new 1 2)
        (SegmentedLog.empty.pushAll (Writer.new 1 2).full rs)
        ((Writer.new 1 2).run (fun _ ↦ Bytes32.zero) Json.parse .empty
          ([[AuditEvent.new 0 .mutation .ok "user:admin"], [.new 1 .priv .err "system"]].map
            withoutFaults)) :=
  writeBatch_agrees_with_verifyChain _ Json.readsBack_parse (.new 1 2) (by decide)
    [[.new 0 .mutation .ok "user:admin"], [.new 1 .priv .err "system"]] (by decide)

end

end Vaiexia.Audit
