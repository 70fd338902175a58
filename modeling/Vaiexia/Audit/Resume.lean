import Vaiexia.Audit.Chain

/-!
# Resuming the chain in the next session

A session opens the active file that the one before left and reads the end of it to find the
last record.  The read starts at a byte offset, 64 KiB before the end of the file, and fails when
that offset lies inside a character: then the whole session is dropped.  `Aligned` says that it
does not.

The sanitizer keeps every line below 32 KiB, so the last line is always read whole: with the
offset between two characters nothing else can go wrong (`lastLineMeta_of_aligned`), and a run
of sessions resumes throughout exactly when every session finds an aligned file
(`resumed_iff_aligned`).  Sixteen rejected requests whose method name is long and not ASCII are
enough to leave a file that is not (`not_resumed_failingSessions`).
-/

namespace Vaiexia.Audit

open Vaiexia.Lib Utf8

/-! ## The end of a file -/

/-- The offset that the end of the file is read from lies between two characters. -/
def Aligned (file : Bytes) : Prop :=
  file.length ≤ tailLen ∨
    ∃ text, decode file = some text ∧ IsBoundary text (file.length - tailLen)

/-- For a text, only the offset counts: a short file is read from its start. -/
theorem aligned_encode_iff (text : List Char) :
    Aligned (encode text) ↔ IsBoundary text ((encode text).length - tailLen) := by
  constructor
  · rintro (hshort | ⟨text', htext, hbound⟩)
    · exact ⟨[], text, rfl, by rw [byteLen_nil]; omega⟩
    · rw [decode_encode] at htext
      obtain rfl := Option.some.inj htext
      exact hbound
  · intro hbound
    exact .inr ⟨text, decode_encode text, hbound⟩

/-- The last line is found in any end of the text that is long enough to hold it. -/
theorem getLast?_lines_tail {ls : List (List Char)} {l a b : List Char} (hl : Text.IsLine l)
    (hne : l ≠ []) (hab : Text.unlines ls ++ (l ++ ['\n']) = a ++ b)
    (hlen : byteLen (l ++ ['\n']) ≤ byteLen b) :
    ((Text.lines b).filter fun m ↦ !m.isEmpty).getLast? = some l := by
  -- What is cut off ends before the last line.
  obtain ⟨c, hc, rfl⟩ : ∃ c, Text.unlines ls = a ++ c ∧ b = c ++ (l ++ ['\n']) := by
    rcases List.append_eq_append_iff.mp hab with ⟨a', rfl, hb⟩ | h
    · have hnil : a' = [] := by
        cases a' with
        | nil => rfl
        | cons x a' =>
            have hx := x.utf8Size_pos
            rw [hb] at hlen
            simp only [List.cons_append, byteLen_cons, byteLen_append] at hlen
            omega
      exact ⟨[], by simp [hnil], by simpa [hnil] using hb.symm⟩
    · exact h
  have hlast : Text.lines (l ++ ['\n']) = [l] := by
    rw [Text.lines_append_newline hl.1, Text.stripCr_of_isLine hl]
    rfl
  rw [Text.lines_append (Text.endsLine_of_append_eq_unlines hc.symm), hlast,
    List.filter_append]
  have hkeep : [l].filter (fun m ↦ !m.isEmpty) = [l] := by simp [hne]
  rw [hkeep, List.getLast?_concat]

section

variable {blake3 : Bytes → Bytes32} {fromStr : List Char → Option Json}

/-- An aligned file of records gives link and number of its last record. -/
theorem lastLineMeta_of_aligned (hread : Json.ReadsBack fromStr) {rs : List Record}
    {last : Record} (hseq : last.seq < 2 ^ 64) (h : Aligned (fileBytes (rs ++ [last]))) :
    lastLineMeta blake3 fromStr (fileBytes (rs ++ [last]))
      = .ok (some (lineHash blake3 last.line, last.seq)) := by
  obtain ⟨a, b, hab, ha⟩ := (aligned_encode_iff _).mp h
  have hdrop : decode ((fileBytes (rs ++ [last])).drop
      ((fileBytes (rs ++ [last])).length - min (fileBytes (rs ++ [last])).length tailLen))
      = some b := by
    have hoff : (fileBytes (rs ++ [last])).length - min (fileBytes (rs ++ [last])).length tailLen
        = byteLen a := by
      rw [ha]
      simp only [fileBytes]
      omega
    rw [hoff, fileBytes, decode_drop_encode_iff (by rw [hab, byteLen_append]; omega)]
    exact ⟨a, hab, rfl⟩
  have htext : Text.unlines ((rs ++ [last]).map Record.line)
      = Text.unlines (rs.map Record.line) ++ (last.line ++ ['\n']) := by simp
  have hlong : byteLen (last.line ++ ['\n']) ≤ byteLen b := by
    have hline := Record.byteLen_line_lt hseq
    have hnl : ('\n' : Char).utf8Size = 1 := by decide
    have htotal := congrArg byteLen hab
    rw [length_encode] at ha
    rw [byteLen_append] at htotal
    have hsum := congrArg byteLen htext
    simp only [byteLen_append, byteLen_cons, byteLen_nil, hnl] at hsum ⊢
    simp only [tailLen] at ha
    omega
  have hlast := getLast?_lines_tail (Record.isLine_line hseq) last.line_ne_nil
    (htext.symm.trans hab) hlong
  have hjson : fromStr last.line = some last.json :=
    hread last.json (Record.readable_json hseq)
  have hnum : Json.asU64 (.uint last.seq) = some last.seq := if_pos hseq
  rw [lastLineMeta, hdrop]
  simp only [hlast, Option.map_some, hjson, Option.bind_some, last.schema.2.1, hnum,
    Option.getD_some]

/-- A text that is not aligned cannot be read from the offset. -/
theorem lastLineMeta_of_not_aligned {text : List Char} (h : ¬ Aligned (encode text)) :
    lastLineMeta blake3 fromStr (encode text) = .error .invalidData := by
  have hoff : (encode text).length - min (encode text).length tailLen
      = (encode text).length - tailLen := by omega
  have hnone : decode ((encode text).drop ((encode text).length - tailLen)) = none := by
    rw [← Option.not_isSome_iff_eq_none,
      isSome_decode_drop_encode_iff (by rw [length_encode]; omega)]
    exact fun hbound ↦ h ((aligned_encode_iff text).mpr hbound)
  rw [lastLineMeta, hoff, hnone]

/-! ## Sessions -/

variable (blake3 fromStr) in
/-- Sessions one after another, each a run of the writer on what the one before left. -/
def Writer.sessions (w : Writer) (ss : List (List (List AuditEvent))) (d : Disk Nat) : Disk Nat :=
  ss.foldl (fun d batches ↦ w.run blake3 fromStr d (batches.map withoutFaults)) d

variable (blake3 fromStr) in
/-- Opening a non-empty active file continues the chain after its last record. -/
def ResumesAt (d : Disk Nat) : Prop :=
  ∀ file ∈ d.files active, file ≠ [] → ∃ s rs last,
    WriterState.open blake3 fromStr d = .ok s ∧ file = fileBytes (rs ++ [last]) ∧
      s.seq = last.seq ∧ s.prev = lineHash blake3 last.line

variable (blake3 fromStr) in
/-- The sessions resume: each continues the chain of the one before, the active file is always
accepted as a whole, and there is a record of every event. -/
structure Resumed (w : Writer) (ss : List (List (List AuditEvent))) : Prop where
  resumes : ∀ before session after, ss = before ++ session :: after →
    ResumesAt blake3 fromStr (w.sessions blake3 fromStr before .empty)
  accepted : ∀ before after, ss = before ++ after →
    ∀ file ∈ (w.sessions blake3 fromStr before .empty).files active,
      ∃ count, verifyChain blake3 fromStr (some file) = .ok count
  nothing_lost : ∃ rs : List Record, rs.map Record.event = ss.flatten.flatten ∧
    (rs = [] ∨ Keeps w (SegmentedLog.empty.pushAll w.full rs)
      (w.sessions blake3 fromStr ss .empty))

/-- What a session leaves: no file before the first one, and then the files of a log. -/
def LeftBy (blake3 : Bytes → Bytes32) (w : Writer) (log : SegmentedLog Record) (d : Disk Nat) :
    Prop :=
  (log = .empty ∧ ∀ n, d.files n = none) ∨
    ∃ s : WriterState, s.disk = d ∧ Consistent blake3 w log s

/-- Opening a file that is there leaves every file as it is. -/
theorem files_openAppend_of_some {d : Disk Nat} {file : Bytes} (h : d.files active = some file) :
    (d.openAppend false active).1.files = d.files := by
  simp only [Disk.openAppend, Bool.false_eq_true, if_false, h, Option.getD_some]
  rw [← h, Function.update_eq_self]

/-- The writer with its file opened anew. -/
def WriterState.reopened (s : WriterState) : WriterState :=
  { s with disk := (s.disk.openAppend false active).1 }

theorem consistent_reopened {w : Writer} {log : SegmentedLog Record} {s : WriterState}
    (h : Consistent blake3 w log s) : Consistent blake3 w log s.reopened where
  files := by
    intro n
    rw [WriterState.reopened, files_openAppend_of_some h.file_active]
    exact h.files n
  handle := rfl
  bytes := h.bytes
  numbered := h.numbered
  seq := h.seq
  prev := h.prev

/-- **Resuming**: on an aligned file, opening gives back the state that the session before ended
with. -/
theorem open_of_consistent (hread : Json.ReadsBack fromStr) {w : Writer}
    {log : SegmentedLog Record} {s : WriterState} (h : Consistent blake3 w log s)
    (hlt : log.written.length < 2 ^ 64) (hcurrent : log.current = [] → log.written = [])
    (haligned : ∀ file ∈ s.disk.files active, Aligned file) :
    WriterState.open blake3 fromStr s.disk = .ok s.reopened := by
  obtain ⟨disk, bytes, seq, prev⟩ := s
  have hfile : disk.files active = some (fileBytes log.current) := h.file_active
  obtain rfl : bytes = _ := h.bytes
  obtain rfl : seq = _ := h.seq
  obtain rfl : prev = _ := h.prev
  rcases List.eq_nil_or_concat log.current with hcur | ⟨init, last, hcur⟩
  · -- An empty file is what sessions without events leave.
    simp only [WriterState.open, hfile, hcur, hcurrent hcur, fileBytes_nil, List.length_nil,
      if_true, WriterState.reopened, nextPrev, List.getLast?_nil, Option.map_none,
      Option.getD_none]
  · have hmem : last ∈ log.written.getLast? := by
      rw [SegmentedLog.written, SegmentedLog.segments, hcur]
      simp
    rw [List.concat_eq_append] at hcur
    have hseq := h.numbered.seq_getLast hmem
    have hlen : (fileBytes (init ++ [last])).length ≠ 0 := by
      rw [ne_eq, List.length_eq_zero_iff]
      exact fileBytes_ne_nil (by simp)
    have hmeta : lastLineMeta blake3 fromStr (fileBytes (init ++ [last])) = _ :=
      lastLineMeta_of_aligned hread (by rw [hseq]; exact hlt)
        (by rw [← hcur]; exact haligned _ hfile)
    simp only [WriterState.open, hfile, hcur, if_neg hlen, hmeta, Option.getD_some,
      WriterState.reopened, nextPrev, Option.mem_def.mp hmem, Option.map_some, hseq]

/-- A session that finds an aligned file goes on where the log ends. -/
theorem consistent_open (hread : Json.ReadsBack fromStr) {w : Writer} {rs : List Record}
    {d : Disk Nat} (h : LeftBy blake3 w (SegmentedLog.empty.pushAll w.full rs) d)
    (hlt : rs.length < 2 ^ 64) (haligned : ∀ file ∈ d.files active, Aligned file) :
    ∃ s, WriterState.open blake3 fromStr d = .ok s ∧
      Consistent blake3 w (SegmentedLog.empty.pushAll w.full rs) s := by
  rcases h with ⟨hlog, hnone⟩ | ⟨s, rfl, hs⟩
  · refine ⟨_, by rw [WriterState.open, hnone], ?_⟩
    rw [hlog]
    exact consistent_start hnone
  · have hwritten : (SegmentedLog.empty.pushAll w.full rs).written = rs := by simp
    refine ⟨_, open_of_consistent hread hs (by rwa [hwritten]) ?_ haligned,
      consistent_reopened hs⟩
    intro hcur
    by_contra hne
    rw [hwritten] at hne
    exact SegmentedLog.current_ne_nil_pushAll w.full hne .empty hcur

theorem sessions_append_singleton (w : Writer) (ss : List (List (List AuditEvent)))
    (session : List (List AuditEvent)) (d : Disk Nat) :
    w.sessions blake3 fromStr (ss ++ [session]) d =
      w.run blake3 fromStr (w.sessions blake3 fromStr ss d) (session.map withoutFaults) := by
  simp [Writer.sessions]

/-- Every session that starts on an aligned file adds its events to the log. -/
theorem leftBy_sessions (blake3 : Bytes → Bytes32) (hread : Json.ReadsBack fromStr) (w : Writer)
    (ss : List (List (List AuditEvent))) (hlen : ss.flatten.flatten.length < 2 ^ 64)
    (haligned : ∀ before session after, ss = before ++ session :: after →
      ∀ file ∈ (w.sessions blake3 fromStr before .empty).files active, Aligned file) :
    ∃ rs : List Record, rs.map Record.event = ss.flatten.flatten ∧
      LeftBy blake3 w (SegmentedLog.empty.pushAll w.full rs)
        (w.sessions blake3 fromStr ss .empty) := by
  induction ss using List.reverseRecOn with
  | nil => exact ⟨[], rfl, .inl ⟨rfl, fun _ ↦ rfl⟩⟩
  | append_singleton ss session ih =>
      simp only [List.flatten_append, List.flatten_cons, List.flatten_nil, List.append_nil,
        List.length_append] at hlen
      obtain ⟨rs, hevs, hleft⟩ := ih (by omega) fun before session' after hsplit ↦
        haligned before session' (after ++ [session]) (by rw [hsplit]; simp)
      have hcount : rs.length = ss.flatten.flatten.length := by rw [← hevs, List.length_map]
      obtain ⟨s, hopen, hs⟩ := consistent_open hread hleft (by omega)
        (haligned ss session [] (by simp))
      have hseq : s.seq = rs.length := by rw [hs.seq]; simp
      obtain ⟨rs', hevs', hs'⟩ := consistent_writeBatches session hs (by omega)
      refine ⟨rs ++ rs', by simp [hevs, hevs'],
        .inr ⟨w.writeBatches blake3 s (session.map withoutFaults), ?_, ?_⟩⟩
      · rw [sessions_append_singleton, Writer.run, hopen]
      · rw [SegmentedLog.pushAll_append]
        exact hs'

/-- The active file a session leaves is accepted. -/
theorem accepted_of_leftBy (hread : Json.ReadsBack fromStr) {w : Writer}
    {log : SegmentedLog Record} {d : Disk Nat} (h : LeftBy blake3 w log d)
    (hlt : log.written.length < 2 ^ 64) :
    ∀ file ∈ d.files active, ∃ count, verifyChain blake3 fromStr (some file) = .ok count := by
  intro file hfile
  rcases h with ⟨_, hnone⟩ | ⟨s, rfl, hs⟩
  · rw [hnone] at hfile
    cases hfile
  · refine ⟨log.current.length, ?_⟩
    rw [← Option.mem_def.mp hfile]
    exact verifyChain_of_consistent hread hs hlt (Nat.zero_le _) rfl

/-- A session that starts on an aligned file resumes. -/
theorem resumesAt_of_leftBy (hread : Json.ReadsBack fromStr) {w : Writer} {rs : List Record}
    {d : Disk Nat} (h : LeftBy blake3 w (SegmentedLog.empty.pushAll w.full rs) d)
    (hlt : rs.length < 2 ^ 64) (haligned : ∀ file ∈ d.files active, Aligned file) :
    ResumesAt blake3 fromStr d := by
  intro file hfile hne
  obtain ⟨s', hopen, hs'⟩ := consistent_open hread h hlt haligned
  rcases h with ⟨_, hnone⟩ | ⟨s, rfl, hs⟩
  · rw [hnone] at hfile
    cases hfile
  · rw [hs.file_active] at hfile
    obtain rfl := Option.some.inj hfile
    rcases List.eq_nil_or_concat (SegmentedLog.empty.pushAll w.full rs).current
      with hcur | ⟨init, last, hcur⟩
    · rw [hcur] at hne
      exact absurd rfl hne
    · have hmem : last ∈ (SegmentedLog.empty.pushAll w.full rs).written.getLast? := by
        rw [SegmentedLog.written, SegmentedLog.segments, hcur]
        simp
      refine ⟨s', init, last, hopen, by rw [hcur, List.concat_eq_append], ?_, ?_⟩
      · rw [hs'.seq, hs'.numbered.seq_getLast hmem]
      · rw [hs'.prev, nextPrev, Option.mem_def.mp hmem]
        rfl

/-- Where a session resumes, the file was aligned. -/
theorem aligned_of_resumesAt {d : Disk Nat} (h : ResumesAt blake3 fromStr d) :
    ∀ file ∈ d.files active, Aligned file := by
  intro file hfile
  by_cases hne : file = []
  · exact .inl (by rw [hne]; exact Nat.zero_le _)
  · obtain ⟨s, rs, last, hopen, hrs, _⟩ := h file hfile hne
    by_contra hnot
    rw [WriterState.open, Option.mem_def.mp hfile] at hopen
    simp only [List.length_eq_zero_iff, hne, if_false] at hopen
    rw [hrs, fileBytes] at hnot hopen
    rw [lastLineMeta_of_not_aligned hnot] at hopen
    cases hopen

/-- **The writer resumes exactly on aligned files.**  A sequence of sessions continues one chain,
with every event recorded, exactly when each session finds an active file that is at most 64 KiB
long, or whose offset 64 KiB before its end lies between two characters. -/
theorem resumed_iff_aligned (hread : Json.ReadsBack fromStr) (w : Writer)
    (ss : List (List (List AuditEvent))) (hlen : ss.flatten.flatten.length < 2 ^ 64) :
    Resumed blake3 fromStr w ss ↔
      ∀ before session after, ss = before ++ session :: after →
        ∀ file ∈ (w.sessions blake3 fromStr before .empty).files active, Aligned file := by
  constructor
  · intro h before session after hsplit
    exact aligned_of_resumesAt (h.resumes before session after hsplit)
  · intro haligned
    -- Every prefix of the run meets the condition, so each leaves the files of its log.
    have hleft : ∀ before after, ss = before ++ after → ∃ rs : List Record,
        rs.map Record.event = before.flatten.flatten ∧ rs.length < 2 ^ 64 ∧
          LeftBy blake3 w (SegmentedLog.empty.pushAll w.full rs)
            (w.sessions blake3 fromStr before .empty) := by
      intro before after hsplit
      have hcount : before.flatten.flatten.length ≤ ss.flatten.flatten.length := by
        rw [hsplit]
        simp
      obtain ⟨rs, hevs, hd⟩ := leftBy_sessions blake3 hread w before (by omega)
        fun before' session after' hsplit' ↦
          haligned before' session (after' ++ after) (by rw [hsplit, hsplit']; simp)
      refine ⟨rs, hevs, ?_, hd⟩
      rw [← List.length_map Record.event, hevs]
      omega
    refine ⟨?_, ?_, ?_⟩
    · intro before session after hsplit
      obtain ⟨rs, _, hlt, hd⟩ := hleft before (session :: after) hsplit
      exact resumesAt_of_leftBy hread hd hlt (haligned before session after hsplit)
    · intro before after hsplit
      obtain ⟨rs, _, hlt, hd⟩ := hleft before after hsplit
      exact accepted_of_leftBy hread hd (by simpa using hlt)
    · obtain ⟨rs, hevs, _, hd⟩ := hleft ss [] (by simp)
      refine ⟨rs, hevs, ?_⟩
      rcases hd with ⟨hlog, _⟩ | ⟨s, hs, hcons⟩
      · exact .inl (by simpa using congrArg SegmentedLog.written hlog)
      · exact .inr (hs ▸ hcons.files)

end

theorem resumed_iff_aligned_twoSessions :
    Resumed (fun _ ↦ Bytes32.zero) Json.parse (.new 400 2)
        [[[AuditEvent.new 0 .lifecycle .ok "system"]], [[.new 1 .mutation .ok "user:admin"]]] ↔
      ∀ before session after,
        [[[AuditEvent.new 0 .lifecycle .ok "system"]], [[.new 1 .mutation .ok "user:admin"]]]
          = before ++ session :: after →
        ∀ file ∈ ((Writer.new 400 2).sessions (fun _ ↦ Bytes32.zero) Json.parse before
          .empty).files active, Aligned file :=
  resumed_iff_aligned Json.readsBack_parse (.new 400 2)
    [[[.new 0 .lifecycle .ok "system"]], [[.new 1 .mutation .ok "user:admin"]]] (by decide)

/-! ## A file that is not aligned -/

/-- A method name that fills its field with characters of four bytes. -/
def longMethod : String := String.ofList (List.replicate maxFieldLen '😀')

/-- What the verifier records of a request with that method and no valid token. -/
def rejected : AuditEvent :=
  ((AuditEvent.new 1700000000 .authDecision .deny "anonymous").withMethod longMethod).withReason
    .badToken

/-- Sixteen rejected requests in one session, and one event in the next. -/
def failingSessions : List (List (List AuditEvent)) :=
  [[List.replicate 16 rejected], [[.new 1700000100 .lifecycle .ok "system"]]]

theorem sanitize_longMethod : (sanitize longMethod).text = longMethod := by
  refine sanitize_text ?_ ?_
  · rw [longMethod, String.toList_ofList, List.length_replicate]
  · rw [longMethod, String.toList_ofList, List.all_replicate]
    decide

/-- The method name stands in the line of a rejected request as it is. -/
theorem line_rejected {r : Record} (h : r.event = rejected) :
    ∃ pre post, r.line = pre ++ (List.replicate maxFieldLen '😀' ++ post) ∧
      byteLen pre = 169 + (Nat.toDigits 10 r.seq).length ∧ byteLen post = 28 := by
  have hplain : ∀ c ∈ longMethod.toList, Json.escapeChar c = [c] := by
    intro c hc
    rw [longMethod, String.toList_ofList] at hc
    rw [List.eq_of_mem_replicate hc]
    decide
  -- The members before the method, and the one after it.
  let front : List (String × Json) :=
    [("schema_version", .uint 1), ("ts_wall", .uint 1700000000), ("kind", .str "auth_decision"),
      ("severity", .str "security"), ("decision", .str "deny"), ("subject", .str "anonymous")]
  let back : List (String × Json) := [("reason_code", .str "bad_token")]
  have hmembers : r.members = [("seq", .uint r.seq), ("prev", .str r.prev.text)]
      ++ (front ++ ([("method", .str longMethod)] ++ back)) := by
    have hsubject : (sanitize "anonymous").text = "anonymous" :=
      sanitize_text (by decide) (by decide)
    rw [Record.members, h]
    simp [AuditEvent.members, rejected, AuditEvent.new, AuditEvent.withMethod,
      AuditEvent.withReason, AuditEvent.optional, sanitize_longMethod, hsubject, front, back,
      schemaVersion, AuditKind.text, Severity.text, defaultSeverity, AuditDecision.text,
      Reason.text]
  have hfront : byteLen (Json.renderObj front) = 124 := by decide +kernel
  have hback : byteLen (Json.renderObj back) = 25 := by decide
  have hname : byteLen (Json.renderStr "seq") = 5 ∧ byteLen (Json.renderStr "prev") = 6
      ∧ byteLen (Json.renderStr "method") = 8 := by decide
  have hsign : ('{' : Char).utf8Size = 1 ∧ ('}' : Char).utf8Size = 1 ∧ (',' : Char).utf8Size = 1
      ∧ (':' : Char).utf8Size = 1 ∧ ('"' : Char).utf8Size = 1 := by decide
  refine ⟨'{' :: Json.renderObj [("seq", .uint r.seq), ("prev", .str r.prev.text)]
      ++ ',' :: (Json.renderObj front ++ ',' :: (Json.renderStr "method" ++ [':', '"'])),
    '"' :: ',' :: (Json.renderObj back ++ ['}']), ?_, ?_, ?_⟩
  · rw [Record.line, Record.json, hmembers, Json.render,
      Json.renderObj_append (by simp) (by simp [front]),
      Json.renderObj_append (by simp [front]) (by simp),
      Json.renderObj_append (by simp) (by simp [back])]
    simp only [Json.renderObj, Json.renderMember, Json.render, Json.renderStr_of_plain hplain]
    simp [longMethod, String.toList_ofList]
  · have hprev := byteLen_render_link r.prev
    simp only [Json.renderObj, Json.renderMember, List.cons_append, byteLen_cons, byteLen_append,
      byteLen_nil, hname, hsign, hprev, hfront]
    simp only [Json.render, Json.byteLen_toDigits]
    omega
  · simp only [byteLen_cons, byteLen_append, byteLen_nil, hsign, hback]

/-- The file of sixteen rejected requests: 64 KiB before its end lies inside a character of the
first record's method name. -/
theorem not_aligned_rejected {blake3 : Bytes → Bytes32} {rs : List Record}
    (hnum : Numbered blake3 rs) (hevs : rs.map Record.event = List.replicate 16 rejected) :
    (fileBytes rs).length = 68727 ∧ ¬ Aligned (fileBytes rs) := by
  have hcount : rs.length = 16 := by
    rw [← List.length_map Record.event, hevs, List.length_replicate]
  have hev : ∀ r ∈ rs, r.event = rejected := by
    intro r hr
    have hmem : r.event ∈ List.replicate 16 rejected := hevs ▸ List.mem_map_of_mem hr
    exact List.eq_of_mem_replicate hmem
  have hsize : ('😀' : Char).utf8Size = 4 := by decide
  have hline : ∀ r ∈ rs, byteLen r.line + 1 = 4294 + (Nat.toDigits 10 r.seq).length := by
    intro r hr
    obtain ⟨pre, post, heq, hpre, hpost⟩ := line_rejected (hev r hr)
    simp only [heq, byteLen_append, hpre, hpost, byteLen_replicate, hsize, maxFieldLen]
    omega
  have hlen : (fileBytes rs).length = 68727 := by
    have hseqs := hnum.seqs
    rw [hcount] at hseqs
    calc
      (fileBytes rs).length = (rs.map fun r ↦ byteLen r.line + 1).sum := length_fileBytes rs
      _ = ((rs.map Record.seq).map fun n ↦ 4294 + (Nat.toDigits 10 n).length).sum := by
        rw [List.map_map, List.map_congr_left hline]
        rfl
      _ = 68727 := by rw [hseqs]; decide
  refine ⟨hlen, ?_⟩
  rw [fileBytes] at hlen
  have hoff : 68727 - tailLen = 3191 := by decide
  rw [fileBytes, aligned_encode_iff, hlen, hoff]
  -- The first record has number one, so its method name starts at byte 170.
  obtain ⟨first, rest, rfl⟩ := List.exists_cons_of_length_pos (hcount ▸ (by decide : 0 < 16))
  have hfirst : first.seq = 1 := by
    have hseqs := hnum.seqs
    rw [hcount, List.map_cons] at hseqs
    exact (List.cons.inj hseqs).1
  obtain ⟨pre, post, heq, hpre, _⟩ := line_rejected (hev first (by simp))
  have hone : (Nat.toDigits 10 1).length = 1 := by decide
  rw [hfirst, hone] at hpre
  have hnot := not_isBoundary_replicate (c := '😀') (a := pre)
    (b := post ++ '\n' :: Text.unlines (rest.map Record.line)) (n := maxFieldLen) (q := 755)
    (r := 1) (by decide) (by decide) (by decide)
  rw [hpre, hsize] at hnot
  rw [List.map_cons, Text.unlines_cons, heq]
  simpa [List.append_assoc] using hnot

/-- A session of sixteen rejected requests leaves a file that is not aligned, when the file may
grow to that size. -/
theorem exists_not_aligned_rejected (blake3 : Bytes → Bytes32) {fromStr : List Char → Option Json}
    (hread : Json.ReadsBack fromStr) {w : Writer} (hmax : 68727 < w.maxBytes) :
    ∃ file ∈ (w.sessions blake3 fromStr [[List.replicate 16 rejected]] .empty).files active,
      ¬ Aligned file := by
  obtain ⟨rs, hevs, hleft⟩ := leftBy_sessions blake3 hread w
    [[List.replicate 16 rejected]] (by simp) (by
      intro before session after hsplit
      have hbefore : before = [] := by
        cases before with
        | nil => rfl
        | cons b bs => simp at hsplit
      subst hbefore
      intro file hfile
      cases hfile)
  simp only [List.flatten_cons, List.flatten_nil, List.append_nil] at hevs
  have hcount : rs.length = 16 := by
    rw [← List.length_map Record.event, hevs, List.length_replicate]
  rcases hleft with ⟨hlog, _⟩ | ⟨s, hs, hcons⟩
  · have hnil : rs = [] := by simpa using congrArg SegmentedLog.written hlog
    simp [hnil] at hcount
  · have hnum : Numbered blake3 rs := by simpa using hcons.numbered
    obtain ⟨hlen, hnot⟩ := not_aligned_rejected hnum hevs
    have hcurrent :
        SegmentedLog.empty.pushAll w.full rs = { SegmentedLog.empty with current := rs } := by
      refine SegmentedLog.pushAll_of_not_full fun pre hpre ↦ ?_
      obtain ⟨post, rfl⟩ := hpre
      rw [length_fileBytes, List.map_append, List.sum_append, ← length_fileBytes] at hlen
      exact decide_eq_false (by simp only [SegmentedLog.empty, List.nil_append]; omega)
    have hfile := hcons.file_active
    rw [hs, hcurrent] at hfile
    exact ⟨_, hfile, hnot⟩

/-- **The writer does not resume** after sixteen rejected requests with a long method name that
is not ASCII, with the default limits of the configuration. -/
theorem not_resumed_failingSessions :
    ¬ Resumed (fun _ ↦ Bytes32.zero) Json.parse (.new (8 * 1024 * 1024) 3) failingSessions := by
  intro h
  obtain ⟨file, hfile, hnot⟩ := exists_not_aligned_rejected (fun _ ↦ Bytes32.zero)
    Json.readsBack_parse (w := .new (8 * 1024 * 1024) 3) (by decide)
  exact hnot (aligned_of_resumesAt (h.resumes [[List.replicate 16 rejected]] _ [] rfl) file hfile)

end Vaiexia.Audit
