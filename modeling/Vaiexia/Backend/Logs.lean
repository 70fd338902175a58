import Mathlib.Data.List.Nodup
import Mathlib.Data.List.Perm.Subperm
import Vaiexia.Backend.Types
import Vaiexia.Lib.CutLines
import Vaiexia.Lib.JsonParse

/-!
# Log providers

`JournaldLogs::query` of `crates/vaiexia-server/src/backend/logs`, with the argument vector that it
builds, `run_capped` around the child, and the parsing of what the child printed; and the provider
of `MockBackend`, which pages through a list.

A client that wants all entries follows the cursors (`Walk`).  `paging_iff` says when it sees every
entry that matches once; with the mock it always does (`walk_mockQuery`).
-/

namespace Vaiexia.Backend

open Vaiexia.Lib

/-! ## Units -/

/-- `ALLOWED_SUFFIXES`. -/
def allowedSuffixes : List String :=
  [".service", ".socket", ".timer", ".target", ".path", ".mount"]

/-- The bytes of a systemd unit name. -/
def isSystemdUnitChar (c : Char) : Bool :=
  ('A' ≤ c && c ≤ 'Z') || ('a' ≤ c && c ≤ 'z') || ('0' ≤ c && c ≤ '9') || c == '.' || c == '_' ||
    c == '@' || c == '-'

/-- `SystemdUnitName::parse` accepts it. -/
def isSystemdUnitName (s : String) : Bool :=
  !s.isEmpty && Utf8.byteLen s.toList ≤ 256 &&
    !(s.toList.zip s.toList.tail).any (· == ('.', '.')) &&
    s.toList.all isSystemdUnitChar &&
    (!s.toList.contains '.' || allowedSuffixes.any fun suf ↦ suf.toList.isSuffixOf s.toList)

/-! ## Arguments -/

/-- `{micros:06}`. -/
def sixDigits (n : Nat) : List Char :=
  List.replicate (6 - (Nat.toDigits 10 n).length) '0' ++ Nat.toDigits 10 n

/-- A time in microseconds, as `journalctl` takes it. -/
def atSeconds (us : UInt64) : String :=
  String.ofList ('@' :: Nat.toDigits 10 (us.toNat / 1000000) ++
    '.' :: sixDigits (us.toNat % 1000000))

/-- The arguments for the filters of a query. -/
def filterArgs (q : LogQuery) : List String :=
  (match q.unit with
    | some unit => ["-u", unit]
    | none => []) ++
  (match q.sinceUs with
    | some us => ["--since", atSeconds us]
    | none => []) ++
  (match q.untilUs with
    | some us => ["--until", atSeconds us]
    | none => [])

/-- `to_string` of a number. -/
def decimal (n : Nat) : String := String.ofList (Nat.toDigits 10 n)

/-- `build_argv`. -/
def buildArgv (q : LogQuery) : List String :=
  ["/usr/bin/journalctl", "-o", "json", "--no-pager"] ++ filterArgs q ++
    (if 0 < q.limit then ["-n", decimal q.limit.toNat] else []) ++
    (match q.cursor with
      | some cursor => ["--after-cursor", cursor]
      | none => [])

/-! ## Lines -/

/-- The byte that an element of a `MESSAGE` array stands for. -/
def messageByte : Json → Option UInt8
  | .uint n => if n < 256 then some (UInt8.ofNat n) else none
  | _ => none

/-- The `MESSAGE` of an entry. -/
def messageText : Option Json → String
  | some (.str s) => s
  | some (.arr xs) => String.ofList (Utf8.decodeLossy (xs.filterMap messageByte))
  | _ => ""

/-- A member that is a text. -/
def textMember (v : Json) (key : String) : Option String := (v.get? key).bind Json.asStr

/-- `parse_journal_line`.  `fromSlice` reads a JSON document. -/
def parseJournalLine (fromSlice : Bytes → Option Json) (line : Bytes) : Option LogEntry :=
  match fromSlice line with
  | some (.obj members) =>
      let v := Json.obj members
      some {
        cursor := (textMember v "__CURSOR").getD ""
        tsUs := UInt64.ofNat (((textMember v "__REALTIME_TIMESTAMP").bind fun s ↦
          Text.parseUnsigned (2 ^ 64) s.toList).getD 0)
        unit := textMember v "_SYSTEMD_UNIT"
        priority := UInt8.ofNat (((textMember v "PRIORITY").bind fun s ↦
          Text.parseUnsigned 256 s.toList).getD 6)
        message := messageText (v.get? "MESSAGE") }
  | _ => none

/-! ## Children -/

/-- What a child does: what it prints, whether it is done with it before the deadline, and whether
it exits with success then. -/
structure ChildRun where
  output : Bytes
  inTime : Bool
  success : Bool

/-- `RunOutcome`. -/
structure RunOutcome where
  stdout : Bytes
  truncated : Bool
  timedOut : Bool
  success : Bool

/-- `run_capped`, of a child that was spawned. -/
def runCapped (cap : Nat) (child : ChildRun) : RunOutcome :=
  if !child.inTime then ⟨[], false, true, false⟩
  else if cap < child.output.length then ⟨child.output.take cap, true, false, false⟩
  else ⟨child.output, false, false, child.success⟩

/-! ## Journald -/

/-- `MAX_OUTPUT_BYTES`. -/
def maxOutputBytes : Nat := 32 * 1024 * 1024

/-- `MAX_LINES`. -/
def maxLines : Nat := 10000

/-- The entries of the lines, at most so many. -/
def collectEntries (fromSlice : Bytes → Option Json) : Nat → List Bytes → List LogEntry
  | _, [] => []
  | room, line :: lines =>
      if line.isEmpty then collectEntries fromSlice room lines
      else
        match room with
        | 0 => []
        | room + 1 =>
            match parseJournalLine fromSlice line with
            | some entry => entry :: collectEntries fromSlice room lines
            | none => collectEntries fromSlice (room + 1) lines

/-- The page of some entries: the next cursor is the last one that is not empty. -/
def journalPage (entries : List LogEntry) : Page LogEntry where
  items := entries
  next := ((entries.filter fun e ↦ !e.cursor.isEmpty).getLast?).map LogEntry.cursor

/-- `JournaldLogs::query`.  `spawn` runs a program with its arguments, `none` when it cannot be
spawned or reading from it fails. -/
def journaldQuery (fromSlice : Bytes → Option Json)
    (spawn : String → List String → Option ChildRun) (q : LogQuery) :
    Except BackendError (Page LogEntry) :=
  if q.unit.any fun unit ↦ !isSystemdUnitName unit then .error .invalidName
  else
    match buildArgv q with
    | [] => .error .unavailable
    | program :: args =>
        match spawn program args with
        | none => .error .unavailable
        | some child =>
            let out := runCapped maxOutputBytes child
            if out.timedOut then .error .timeout
            else if !out.truncated && !out.success && out.stdout.isEmpty then .error .unavailable
            else .ok (journalPage (collectEntries fromSlice maxLines
              (out.stdout.splitOnP (· == 10))))

/-! ## The mock -/

/-- `cursor_for`.  `encode` is base64. -/
def cursorFor (encode : Bytes → String) (idx : Nat) : String :=
  encode (Utf8.encode (decimal idx).toList)

/-- `cursor_to_idx`. -/
def cursorToIdx (decode : String → Option Bytes) (cursor : String) : Option Nat :=
  (decode cursor).bind fun bytes ↦ (Utf8.decode bytes).bind (Text.parseUnsigned (2 ^ 64))

/-- What a query filters for. -/
def LogQuery.matchesEntry (q : LogQuery) (e : LogEntry) : Bool :=
  (q.unit.map fun unit ↦ decide (e.unit = some unit)).getD true &&
    (q.sinceUs.map fun since ↦ decide (since ≤ e.tsUs)).getD true &&
    (q.untilUs.map fun upto ↦ decide (e.tsUs ≤ upto)).getD true

/-- `PAGE_SIZE`. -/
def pageSize : Nat := 10

/-- `query` of `MockBackend`, when no failure was set. -/
def mockQuery (encode : Bytes → String) (decode : String → Option Bytes) (logs : List LogEntry)
    (q : LogQuery) : Except BackendError (Page LogEntry) :=
  let start := (q.cursor.map fun cursor ↦ (cursorToIdx decode cursor).getD 0).getD 0
  let limit := if q.limit = 0 then pageSize else q.limit.toNat
  let filtered := logs.filter q.matchesEntry
  let items := (filtered.drop start).take limit
  let nextStart := start + items.length
  .ok ⟨items, if nextStart < filtered.length then some (cursorFor encode nextStart) else none⟩

/-! ## Following the cursors -/

/-- What a client sees that follows `next` until there is none or a page is empty. -/
inductive Walk (query : LogQuery → Except BackendError (Page LogEntry)) :
    LogQuery → List LogEntry → Prop
  | last {q : LogQuery} {page : Page LogEntry} (hquery : query q = .ok page)
      (hlast : page.next = none ∨ page.items = []) : Walk query q page.items
  | more {q : LogQuery} {page : Page LogEntry} {cursor : String} {entries : List LogEntry}
      (hquery : query q = .ok page) (hnext : page.next = some cursor) (hmore : page.items ≠ [])
      (hrest : Walk query { q with cursor := some cursor } entries) :
      Walk query q (page.items ++ entries)

/-- An entry of the journal, with the line that `journalctl` prints for it. -/
structure JournalLine where
  line : Bytes
  entry : LogEntry

/-- What is printed for some entries. -/
def printed (shown : List JournalLine) : Bytes := shown.flatMap fun e ↦ e.line ++ [10]

/-- The lines of a journal: each is read as its entry, and not before its end; and the cursors are
not empty, and differ. -/
structure JournalLines (fromSlice : Bytes → Option Json) (matching : List JournalLine) : Prop where
  parses : ∀ e ∈ matching, parseJournalLine fromSlice e.line = some e.entry
  prefixes : ∀ e ∈ matching, ∀ k < e.line.length,
    parseJournalLine fromSlice (e.line.take k) = none
  lines : ∀ e ∈ matching, e.line ≠ [] ∧ 10 ∉ e.line
  cursors : ∀ e ∈ matching, e.entry.cursor ≠ ""
  nodup : (matching.map fun e ↦ e.entry.cursor).Nodup

/-- What `journalctl` prints for filters that such entries match, in their order: with `-n` the last
so many of them; with a cursor so many of those that come after it, of which it is not said here
which ones. -/
structure Prints (spawn : String → List String → Option ChildRun) (filters : List String) (n : Nat)
    (matching : List JournalLine) : Prop where
  recent : spawn "/usr/bin/journalctl"
      (["-o", "json", "--no-pager"] ++ filters ++ ["-n", decimal n]) =
    some ⟨printed (matching.drop (matching.length - n)), true, true⟩
  after : ∀ before e rest, matching = before ++ e :: rest →
    ∃ shown : List JournalLine, shown.Sublist rest ∧ shown.length = min n rest.length ∧
      spawn "/usr/bin/journalctl" (["-o", "json", "--no-pager"] ++ filters ++
        ["-n", decimal n] ++ ["--after-cursor", e.entry.cursor]) =
      some ⟨printed shown, true, true⟩

/-! ## A page -/

/-- How many of the lines fit into so many bytes. -/
def fitting : Nat → List JournalLine → Nat
  | _, [] => 0
  | cap, e :: es =>
      if e.line.length ≤ cap then fitting (cap - (e.line.length + 1)) es + 1 else 0

section Journald

variable {fromSlice : Bytes → Option Json} {spawn : String → List String → Option ChildRun}
  {matching shown : List JournalLine} {q : LogQuery} {n : Nat}

theorem collectEntries_of_isEmpty {line : Bytes} (h : line.isEmpty = true) (room : Nat)
    (lines : List Bytes) :
    collectEntries fromSlice room (line :: lines) = collectEntries fromSlice room lines := by
  cases room <;> rw [collectEntries, if_pos h]

/-- The entry of a piece, which is none when the piece is empty. -/
def pieceEntry (fromSlice : Bytes → Option Json) (piece : Bytes) : Option LogEntry :=
  if piece.isEmpty then none else parseJournalLine fromSlice piece

/-- The entries that are collected are the first ones of the pieces. -/
theorem collectEntries_eq_take (room : Nat) (lines : List Bytes) :
    collectEntries fromSlice room lines =
      (lines.filterMap (pieceEntry fromSlice)).take room := by
  induction lines generalizing room with
  | nil => exact List.take_nil.symm
  | cons line lines ih =>
      by_cases hline : line.isEmpty = true
      · have hnone : pieceEntry fromSlice line = none := if_pos hline
        rw [collectEntries_of_isEmpty hline, List.filterMap_cons_none hnone]
        exact ih room
      · have hpiece : pieceEntry fromSlice line = parseJournalLine fromSlice line := if_neg hline
        cases room with
        | zero => rw [collectEntries, if_neg hline, List.take_zero]
        | succ room =>
            rw [collectEntries, if_neg hline]
            cases hparse : parseJournalLine fromSlice line with
            | none => rw [List.filterMap_cons_none (hpiece.trans hparse), ← ih]
            | some entry =>
                rw [List.filterMap_cons_some (hpiece.trans hparse), List.take_succ_cons, ← ih]

theorem JournalLines.pieceEntry_line (h : JournalLines fromSlice matching) {e : JournalLine}
    (he : e ∈ matching) : pieceEntry fromSlice e.line = some e.entry := by
  rw [pieceEntry, if_neg (by simpa using (h.lines e he).1), h.parses e he]

/-- The lines of a journal can be cut. -/
theorem JournalLines.uncuttable (h : JournalLines fromSlice matching)
    (hshown : ∀ e ∈ shown, e ∈ matching) :
    Uncuttable 10 (pieceEntry fromSlice) (shown.map JournalLine.line) where
  notMem := List.forall_mem_map.mpr fun e he ↦ (h.lines e (hshown e he)).2
  cut := List.forall_mem_map.mpr fun e he k hk ↦ by
    rw [pieceEntry, h.prefixes e (hshown e he) k hk, ite_self]
  empty := rfl

/-- The lines that are whole are those that fit. -/
theorem wholeLines_map_line (cap : Nat) (shown : List JournalLine) :
    wholeLines cap (shown.map JournalLine.line) =
      (shown.take (fitting cap shown)).map JournalLine.line := by
  induction shown generalizing cap with
  | nil => rfl
  | cons e es ih =>
      rw [List.map_cons, wholeLines, fitting]
      split
      · rw [ih, List.take_succ_cons, List.map_cons]
      · rfl

/-- **What is collected of what was printed**: the entries whose lines fit. -/
theorem collectEntries_printed (h : JournalLines fromSlice matching) {cap room : Nat}
    (hshown : ∀ e ∈ shown, e ∈ matching) (hroom : shown.length ≤ room) :
    collectEntries fromSlice room (((printed shown).take cap).splitOnP (· == 10)) =
      (shown.take (fitting cap shown)).map JournalLine.entry := by
  have huncut := h.uncuttable hshown
  have hprinted : printed shown = [10].intercalate (shown.map JournalLine.line ++ [[]]) := by
    rw [intercalate_concat_nil, List.flatMap_map, printed]
  have hentries : ((shown.take (fitting cap shown)).map JournalLine.line).filterMap
      (pieceEntry fromSlice) = (shown.take (fitting cap shown)).map JournalLine.entry := by
    rw [List.filterMap_map, ← List.filterMap_eq_map]
    exact List.filterMap_congr fun e he ↦ h.pieceEntry_line (hshown e (List.mem_of_mem_take he))
  rw [collectEntries_eq_take, hprinted, filterMap_splitOnP_take huncut.concat_nil,
    filterMap_wholeLines_concat_nil huncut.empty, wholeLines_map_line, hentries]
  refine List.take_of_length_le ?_
  rw [List.length_map, List.length_take]
  exact Nat.le_trans (Nat.min_le_right _ _) hroom

/-- The cursor after a page of the journal is that of its last entry. -/
theorem journalPage_next (h : JournalLines fromSlice matching)
    (hshown : ∀ e ∈ shown, e ∈ matching) :
    (journalPage (shown.map JournalLine.entry)).next =
      shown.getLast?.map fun e ↦ e.entry.cursor := by
  have hall : (shown.map JournalLine.entry).filter (fun e ↦ !e.cursor.isEmpty) =
      shown.map JournalLine.entry := by
    rw [List.filter_eq_self]
    intro entry hentry
    obtain ⟨e, he, rfl⟩ := List.mem_map.mp hentry
    simpa using h.cursors e (hshown e he)
  rw [journalPage, hall, List.getLast?_map, Option.map_map]
  rfl

/-- Some lines of a journal make a journal. -/
theorem JournalLines.sublist (h : JournalLines fromSlice matching) (hsub : shown.Sublist matching) :
    JournalLines fromSlice shown where
  parses e he := h.parses e (hsub.subset he)
  prefixes e he := h.prefixes e (hsub.subset he)
  lines e he := h.lines e (hsub.subset he)
  cursors e he := h.cursors e (hsub.subset he)
  nodup := h.nodup.sublist (hsub.map _)

/-- The page of what was printed. -/
def pageOf (shown : List JournalLine) : Page LogEntry :=
  journalPage ((shown.take (fitting maxOutputBytes shown)).map JournalLine.entry)

/-- **The page that a query gets**, when this was printed for its arguments. -/
theorem journaldQuery_eq (h : JournalLines fromSlice matching)
    (hunit : ∀ unit ∈ q.unit, isSystemdUnitName unit = true)
    (hshown : ∀ e ∈ shown, e ∈ matching) (hlen : shown.length ≤ maxLines)
    {program : String} {args : List String} (hargv : buildArgv q = program :: args)
    (hspawn : spawn program args = some ⟨printed shown, true, true⟩) :
    journaldQuery fromSlice spawn q = .ok (pageOf shown) := by
  have hvalid : (q.unit.any fun unit ↦ !isSystemdUnitName unit) = false := by
    cases hq : q.unit with
    | none => rfl
    | some unit =>
        rw [Option.any_some, hunit unit hq]
        rfl
  rw [journaldQuery, hvalid, hargv]
  dsimp only
  rw [hspawn]
  have hcollect := @collectEntries_printed _ _ _ h maxOutputBytes _ hshown hlen
  by_cases hcap : maxOutputBytes < (printed shown).length
  · simp only [runCapped, Bool.not_true, Bool.false_eq_true, if_false, if_pos hcap,
      Bool.false_and, hcollect, pageOf]
  · rw [List.take_of_length_le (Nat.le_of_not_lt hcap)] at hcollect
    simp only [runCapped, Bool.not_true, Bool.false_eq_true, if_false, if_neg hcap,
      Bool.and_false, Bool.false_and, hcollect, pageOf]

/-! ## All pages -/

/-- A query of the walk: the first one, at some cursor. -/
def LogQuery.from (q : LogQuery) (cursor : Option String) : LogQuery := { q with cursor := cursor }

theorem buildArgv_from (hlimit : 0 < q.limit) (cursor : Option String) :
    buildArgv (q.from cursor) = "/usr/bin/journalctl" :: (["-o", "json", "--no-pager"] ++
      filterArgs q ++ ["-n", decimal q.limit.toNat] ++
        match cursor with
        | some cursor => ["--after-cursor", cursor]
        | none => []) := by
  rw [buildArgv, if_pos (show 0 < (q.from cursor).limit from hlimit)]
  rfl

/-- What the walk relies on. -/
structure Paged (fromSlice : Bytes → Option Json)
    (spawn : String → List String → Option ChildRun) (matching : List JournalLine) (q : LogQuery) :
    Prop where
  lines : JournalLines fromSlice matching
  prints : Prints spawn (filterArgs q) q.limit.toNat matching
  limit : 0 < q.limit ∧ q.limit ≤ 1000

theorem Paged.limit_le (h : Paged fromSlice spawn matching q) : q.limit.toNat ≤ maxLines := by
  have hle := UInt32.le_iff_toNat_le.mp h.limit.2
  exact Nat.le_trans hle (by decide)

/-- The first page is that of the last entries. -/
theorem Paged.first (h : Paged fromSlice spawn matching q)
    (hunit : ∀ unit ∈ q.unit, isSystemdUnitName unit = true) :
    journaldQuery fromSlice spawn (q.from none) =
      .ok (pageOf (matching.drop (matching.length - q.limit.toNat))) := by
  have hle := h.limit_le
  refine journaldQuery_eq h.lines hunit (fun e he ↦ List.mem_of_mem_drop he) ?_
    (buildArgv_from h.limit.1 none) ?_
  · rw [List.length_drop]
    omega
  · rw [List.append_nil]
    exact h.prints.recent

/-- A page at a cursor is that of entries after it, of all of them if they are not too many. -/
theorem Paged.next (h : Paged fromSlice spawn matching q)
    (hunit : ∀ unit ∈ q.unit, isSystemdUnitName unit = true) {before rest : List JournalLine}
    {e : JournalLine} (hsplit : matching = before ++ e :: rest) :
    ∃ shown : List JournalLine, shown.Sublist rest ∧
      (rest.length ≤ q.limit.toNat → shown = rest) ∧
      journaldQuery fromSlice spawn (q.from (some e.entry.cursor)) = .ok (pageOf shown) := by
  obtain ⟨shown, hsub, hlen, hspawn⟩ := h.prints.after before e rest hsplit
  have hle := h.limit_le
  refine ⟨shown, hsub, fun hrest ↦ hsub.eq_of_length ?_, ?_⟩
  · rw [hlen, Nat.min_eq_right hrest]
  · refine journaldQuery_eq h.lines hunit (fun e' he' ↦ ?_) ?_
      (buildArgv_from h.limit.1 (some e.entry.cursor)) hspawn
    · rw [hsplit]
      exact List.mem_append_right _ (List.mem_cons_of_mem e (hsub.subset he'))
    · rw [hlen]
      omega

/-- If the lines are not too long, a page has an entry if there is one. -/
theorem fitting_pos {cap : Nat} (hne : shown ≠ []) (hfits : ∀ e ∈ shown, e.line.length ≤ cap) :
    0 < fitting cap shown := by
  obtain ⟨e, es, rfl⟩ := List.exists_cons_of_ne_nil hne
  rw [fitting, if_pos (hfits e List.mem_cons_self)]
  exact Nat.succ_pos _

/-- The lines that fit are not too long. -/
theorem le_of_mem_take_fitting {cap : Nat} {e : JournalLine}
    (he : e ∈ shown.take (fitting cap shown)) : e.line.length ≤ cap := by
  induction shown generalizing cap with
  | nil => cases he
  | cons e' es ih =>
      rw [fitting] at he
      split at he
      · rename_i hle
        rw [List.take_succ_cons] at he
        rcases List.mem_cons.mp he with rfl | hmem
        · exact hle
        · exact Nat.le_trans (ih hmem) (Nat.sub_le _ _)
      · cases he

/-- **A walk from a page sees all of the page's entries and those after them**, if they are not too
many and none is too long. -/
theorem Paged.walk_of_page (h : Paged fromSlice spawn matching q)
    (hunit : ∀ unit ∈ q.unit, isSystemdUnitName unit = true) {front : List JournalLine}
    {cursor : Option String} (hsplit : matching = front ++ shown)
    (hlen : shown.length ≤ q.limit.toNat) (hfits : ∀ e ∈ shown, e.line.length ≤ maxOutputBytes)
    (hquery : journaldQuery fromSlice spawn (q.from cursor) = .ok (pageOf shown)) :
    Walk (journaldQuery fromSlice spawn) (q.from cursor) (shown.map JournalLine.entry) := by
  -- by induction on what is left: each page that is not empty leaves less
  induction hleft : shown.length using Nat.strongRecOn generalizing shown front cursor with
  | ind left ih =>
      have hmem : ∀ e ∈ shown, e ∈ matching := fun e he ↦ hsplit ▸ List.mem_append_right _ he
      rcases List.eq_nil_or_concat (shown.take (fitting maxOutputBytes shown)) with
        hnone | ⟨seen, e, hseen⟩
      · have hempty : shown = [] := by
          by_contra hne
          have hpos := fitting_pos hne hfits
          have hlength := congrArg List.length hnone
          have hshown := List.length_pos_iff.mpr hne
          rw [List.length_take, List.length_nil] at hlength
          omega
        subst hempty
        exact .last hquery (.inr rfl)
      · have hpage : (pageOf shown).items = (seen ++ [e]).map JournalLine.entry := by
          rw [pageOf, hseen, List.concat_eq_append]
          rfl
        have hnext : (pageOf shown).next = some e.entry.cursor := by
          rw [pageOf, journalPage_next h.lines fun e' he' ↦ hmem e' (List.mem_of_mem_take he'),
            hseen, List.concat_eq_append, List.getLast?_concat]
          rfl
        have hparts : shown = seen ++ e :: shown.drop (fitting maxOutputBytes shown) := by
          conv_lhs => rw [← List.take_append_drop (fitting maxOutputBytes shown) shown, hseen]
          simp
        generalize shown.drop (fitting maxOutputBytes shown) = rest at hparts
        have hsplit' : matching = (front ++ seen) ++ e :: rest := by
          rw [hsplit, hparts, List.append_assoc]
        have hshorter : rest.length < shown.length := by
          rw [hparts, List.length_append, List.length_cons]
          omega
        obtain ⟨shown', -, hall, hquery'⟩ := h.next hunit hsplit'
        obtain rfl := hall (Nat.le_trans (Nat.le_of_lt hshorter) hlen)
        have hafter : matching = (front ++ seen ++ [e]) ++ shown' := by
          rw [hsplit', List.append_assoc _ [e]]
          rfl
        have hwalk := ih shown'.length (hleft ▸ hshorter) hafter
          (Nat.le_trans (Nat.le_of_lt hshorter) hlen)
          (fun e' he' ↦ hfits e' (hparts ▸ List.mem_append_right _ (List.mem_cons_of_mem e he')))
          hquery' rfl
        have hresult : shown.map JournalLine.entry =
            (pageOf shown).items ++ shown'.map JournalLine.entry := by
          rw [hpage, hparts]
          simp
        rw [hresult]
        exact .more hquery hnext (by rw [hpage]; simp) hwalk

/-- What a page shows is among what was printed for it, and not too long. -/
theorem exists_of_mem_pageOf {entry : LogEntry} (h : entry ∈ (pageOf shown).items) :
    ∃ e ∈ shown, e.entry = entry ∧ e.line.length ≤ maxOutputBytes := by
  obtain ⟨e, he, rfl⟩ := List.mem_map.mp h
  exact ⟨e, List.mem_of_mem_take he, rfl, le_of_mem_take_fitting he⟩

/-- **A walk from a page sees nothing but the page's entries and what comes after them.** -/
theorem Paged.mem_of_walk (h : Paged fromSlice spawn matching q)
    (hunit : ∀ unit ∈ q.unit, isSystemdUnitName unit = true) {q' : LogQuery}
    {entries : List LogEntry} (hwalk : Walk (journaldQuery fromSlice spawn) q' entries)
    {cursor : Option String} (hq : q' = q.from cursor) {front rest : List JournalLine}
    (hsplit : matching = front ++ rest) (hsub : shown.Sublist rest)
    (hquery : journaldQuery fromSlice spawn q' = .ok (pageOf shown)) :
    ∀ entry ∈ entries, ∃ e ∈ rest, e.entry = entry ∧ e.line.length ≤ maxOutputBytes := by
  have hmem : ∀ e ∈ shown, e ∈ matching := fun e he ↦
    hsplit ▸ List.mem_append_right _ (hsub.subset he)
  have hitems : ∀ entry ∈ (pageOf shown).items,
      ∃ e ∈ rest, e.entry = entry ∧ e.line.length ≤ maxOutputBytes := by
    intro entry hentry
    obtain ⟨e, he, hparts⟩ := exists_of_mem_pageOf hentry
    exact ⟨e, hsub.subset he, hparts⟩
  induction hwalk generalizing cursor front rest shown with
  | last hpage =>
      obtain rfl := Except.ok.inj (hpage.symm.trans hquery)
      exact hitems
  | more hpage hnext hmore hrest ih =>
      obtain rfl := Except.ok.inj (hpage.symm.trans hquery)
      intro entry hentry
      rcases List.mem_append.mp hentry with hentry | hentry
      · exact hitems entry hentry
      · -- the next page begins after an entry of this one
        rw [pageOf, journalPage_next h.lines fun e' he' ↦ hmem e' (List.mem_of_mem_take he')]
          at hnext
        obtain ⟨e, he, rfl⟩ := Option.map_eq_some_iff.mp hnext
        have herest : e ∈ rest :=
          hsub.subset (List.mem_of_mem_take (List.mem_of_getLast? he))
        obtain ⟨before, after, rfl⟩ := List.append_of_mem herest
        have hsplit' : matching = (front ++ before) ++ e :: after := by
          rw [hsplit, List.append_assoc]
        obtain ⟨shown', hsub', -, hquery'⟩ := h.next hunit hsplit'
        subst hq
        have hafter : matching = (front ++ before ++ [e]) ++ after := by
          rw [hsplit', List.append_assoc _ [e]]
          rfl
        have hmem' : ∀ e' ∈ shown', e' ∈ matching := fun e' he' ↦
          hafter ▸ List.mem_append_right _ (hsub'.subset he')
        obtain ⟨e', he', hparts⟩ := ih rfl hafter hsub' hquery' hmem' (fun entry hentry ↦ by
          obtain ⟨e', he', hparts⟩ := exists_of_mem_pageOf hentry
          exact ⟨e', hsub'.subset he', hparts⟩) entry hentry
        exact ⟨e', List.mem_append_right _ (List.mem_cons_of_mem e he'), hparts⟩

/-- A query that gets a page has a valid unit. -/
theorem unit_of_walk {entries : List LogEntry}
    (hwalk : Walk (journaldQuery fromSlice spawn) q entries) :
    ∀ unit ∈ q.unit, isSystemdUnitName unit = true := by
  intro unit hunit
  have hsome : ∃ page, journaldQuery fromSlice spawn q = .ok page := by
    cases hwalk with
    | last hquery => exact ⟨_, hquery⟩
    | more hquery => exact ⟨_, hquery⟩
  obtain ⟨page, hpage⟩ := hsome
  by_contra hinvalid
  have hany : (q.unit.any fun unit ↦ !isSystemdUnitName unit) = true := by
    rw [Option.mem_def.mp hunit, Option.any_some, Bool.not_eq_true', ← Bool.not_eq_true]
    exact hinvalid
  rw [journaldQuery, hany] at hpage
  cases hpage

/-- **When following the cursors reaches every entry.**  For every journal that `journalctl` prints
from, and every query with a limit from 1 to 1000: the pages from the one without a cursor on have
every matching entry once exactly if the unit is a name that systemd's units may have, there are no
more matching entries than the limit, and none of their lines is longer than the output that is
kept. -/
theorem paging_iff (h : Paged fromSlice spawn matching q) (hcursor : q.cursor = none) :
    (∃ entries, Walk (journaldQuery fromSlice spawn) q entries ∧
        entries.Perm (matching.map JournalLine.entry)) ↔
      (∀ unit ∈ q.unit, isSystemdUnitName unit = true) ∧ matching.length ≤ q.limit.toNat ∧
        ∀ e ∈ matching, e.line.length ≤ maxOutputBytes := by
  have hfrom : q = q.from none := by
    rw [LogQuery.from, ← hcursor]
  have hinj : ∀ e ∈ matching, ∀ e' ∈ matching, e.entry = e'.entry → e = e' := fun e he e' he' heq ↦
    List.inj_on_of_nodup_map h.lines.nodup he he' (congrArg LogEntry.cursor heq)
  constructor
  · rintro ⟨entries, hwalk, hperm⟩
    have hunit := unit_of_walk hwalk
    have hfirst := h.first hunit
    rw [← hfrom] at hfirst
    have hseen := h.mem_of_walk hunit hwalk hfrom
      (List.take_append_drop (matching.length - q.limit.toNat) matching).symm
      (List.Sublist.refl _) hfirst
    have hall : ∀ e ∈ matching, e ∈ matching.drop (matching.length - q.limit.toNat) ∧
        e.line.length ≤ maxOutputBytes := by
      intro e he
      obtain ⟨e', he', heq, hle⟩ := hseen e.entry (hperm.mem_iff.mpr (List.mem_map_of_mem he))
      obtain rfl := hinj e' (List.mem_of_mem_drop he') e he heq
      exact ⟨he', hle⟩
    refine ⟨hunit, ?_, fun e he ↦ (hall e he).2⟩
    -- the entries differ, so that all of them are among the last ones only if there are no others
    have hnodup : matching.Nodup := List.Nodup.of_map _ h.lines.nodup
    have hle := (List.subperm_of_subset hnodup fun e he ↦ (hall e he).1).length_le
    rw [List.length_drop] at hle
    have hpos : 0 < q.limit.toNat := UInt32.lt_iff_toNat_lt.mp h.limit.1
    omega
  · rintro ⟨hunit, hlen, hfits⟩
    have hfirst := h.first hunit
    rw [Nat.sub_eq_zero_of_le hlen, List.drop_zero] at hfirst
    have hwalk := h.walk_of_page hunit (List.nil_append matching).symm hlen hfits hfirst
    rw [← hfrom] at hwalk
    exact ⟨_, hwalk, List.Perm.refl _⟩

end Journald

/-! ## A journal -/

/-- The reader of documents that `JsonParse` has. -/
def readSlice (bs : Bytes) : Option Json := (Utf8.decode bs).bind Json.parse

/-- A line with nothing but a cursor. -/
def cursorLine (cursor : String) : JournalLine where
  line := Utf8.encode (Json.obj [("__CURSOR", .str cursor)]).render
  entry := ⟨cursor, 0, none, 6, ""⟩

/-- What `journalctl` does for `-n n`, without filters and with a cursor or none. -/
def journalctlLast (n : Nat) (lines : List JournalLine) (program : String) (args : List String) :
    Option ChildRun :=
  if program = "/usr/bin/journalctl" then
    match args.drop 5 with
    | ["--after-cursor", cursor] =>
        let after := (lines.dropWhile fun e ↦ e.entry.cursor != cursor).drop 1
        some ⟨printed (after.take n), true, true⟩
    | _ => some ⟨printed (lines.drop (lines.length - n)), true, true⟩
  else none

/-- So many entries a page, of everything. -/
def everything (limit : UInt32) : LogQuery := ⟨none, none, none, limit, none⟩

theorem parseJournalLine_cursorLine (cursor : String) :
    parseJournalLine readSlice (cursorLine cursor).line = some (cursorLine cursor).entry := by
  have hread : readSlice (cursorLine cursor).line = some (.obj [("__CURSOR", .str cursor)]) := by
    rw [readSlice, cursorLine, Utf8.decode_encode]
    refine Json.readsBack_parse _ fun m hm ↦ ?_
    obtain rfl := List.mem_singleton.mp hm
    trivial
  rw [parseJournalLine, hread]
  rfl

/-- Two such lines make a journal. -/
theorem journalLines_two :
    JournalLines readSlice [cursorLine "s=1", cursorLine "s=2"] where
  parses := by
    intro e he
    simp only [List.mem_cons, List.not_mem_nil, or_false] at he
    rcases he with rfl | rfl <;> exact parseJournalLine_cursorLine _
  prefixes := by
    have hnone : ∀ cursor ∈ ["s=1", "s=2"], ∀ k < 18,
        (parseJournalLine readSlice ((cursorLine cursor).line.take k)).isNone = true := by
      decide +kernel
    intro e he k hk
    simp only [List.mem_cons, List.not_mem_nil, or_false] at he
    rcases he with rfl | rfl
    · exact Option.isNone_iff_eq_none.mp (hnone "s=1" (by simp) k hk)
    · exact Option.isNone_iff_eq_none.mp (hnone "s=2" (by simp) k hk)
  lines := by
    intro e he
    simp only [List.mem_cons, List.not_mem_nil, or_false] at he
    rcases he with rfl | rfl <;> decide +kernel
  cursors := by
    intro e he
    simp only [List.mem_cons, List.not_mem_nil, or_false] at he
    rcases he with rfl | rfl <;> decide
  nodup := by decide

/-- It does what is relied on. -/
theorem prints_journalctlLast {n : Nat} {limit : UInt32} {lines : List JournalLine}
    (hnodup : (lines.map fun e ↦ e.entry.cursor).Nodup) :
    Prints (journalctlLast n lines) (filterArgs (everything limit)) n lines where
  recent := rfl
  after := by
    rintro before e rest rfl
    rw [List.map_append, List.map_cons] at hnodup
    have hother : ∀ e' ∈ before, (e'.entry.cursor != e.entry.cursor) = true := by
      intro e' he'
      have hdisjoint := (List.nodup_append.mp hnodup).2.2
      exact bne_iff_ne.mpr
        (hdisjoint _ (List.mem_map_of_mem he') _ List.mem_cons_self)
    have hafter : ((before ++ e :: rest).dropWhile fun e' ↦ e'.entry.cursor != e.entry.cursor) =
        e :: rest := by
      rw [List.dropWhile_append_of_pos hother, List.dropWhile_cons_of_neg (by simp)]
    refine ⟨rest.take n, List.take_sublist n rest, List.length_take, ?_⟩
    show some (ChildRun.mk (printed ((List.drop 1 ((before ++ e :: rest).dropWhile
      fun e' ↦ e'.entry.cursor != e.entry.cursor)).take n)) true true) = _
    rw [hafter]
    rfl

/-- Two entries, one a page: the older one is never shown. -/
theorem not_forall_paging :
    ¬ ∀ spawn matching q, Paged readSlice spawn matching q → q.cursor = none →
      ∃ entries, Walk (journaldQuery readSlice spawn) q entries ∧
        entries.Perm (matching.map JournalLine.entry) := by
  intro h
  have hpaged : Paged readSlice (journalctlLast 1 [cursorLine "s=1", cursorLine "s=2"])
      [cursorLine "s=1", cursorLine "s=2"] (everything 1) :=
    ⟨journalLines_two, prints_journalctlLast journalLines_two.nodup, by decide⟩
  obtain ⟨entries, hwalk, hperm⟩ := h _ _ _ hpaged rfl
  have hseen := hpaged.mem_of_walk nofun hwalk
    (show everything 1 = (everything 1).from none from rfl)
    (show _ = [cursorLine "s=1"] ++ [cursorLine "s=2"] from rfl) (List.Sublist.refl _)
    (hpaged.first nofun)
  obtain ⟨e, he, heq, -⟩ := hseen (cursorLine "s=1").entry
    (hperm.mem_iff.mpr List.mem_cons_self)
  obtain rfl := List.mem_singleton.mp he
  have hcursor := congrArg LogEntry.cursor heq
  revert hcursor
  decide

/-- Two entries, up to three a page. -/
theorem paging_iff_two :
    ∃ entries, Walk (journaldQuery readSlice
        (journalctlLast 3 [cursorLine "s=1", cursorLine "s=2"])) (everything 3) entries ∧
      entries.Perm [(cursorLine "s=1").entry, (cursorLine "s=2").entry] := by
  have hpaged : Paged readSlice (journalctlLast 3 [cursorLine "s=1", cursorLine "s=2"])
      [cursorLine "s=1", cursorLine "s=2"] (everything 3) :=
    ⟨journalLines_two, prints_journalctlLast journalLines_two.nodup, by decide⟩
  refine (paging_iff hpaged rfl).mpr ⟨nofun, by decide, fun e he ↦ ?_⟩
  rcases List.mem_pair.mp he with rfl | rfl <;> decide +kernel

/-! ## Following the cursors of the mock -/

section Mock

variable {encode : Bytes → String} {decode : String → Option Bytes} {logs : List LogEntry}
  {q : LogQuery}

/-- A cursor of the mock is read as the index it was made for. -/
theorem cursorToIdx_cursorFor (hbase64 : ∀ bs, decode (encode bs) = some bs) {idx : Nat}
    (hidx : idx < 2 ^ 64) : cursorToIdx decode (cursorFor encode idx) = some idx := by
  rw [cursorToIdx, cursorFor, hbase64, Option.bind_some, Utf8.decode_encode, Option.bind_some,
    decimal, String.toList_ofList, Text.parseUnsigned_toDigits hidx]

/-- **Following the cursors of the mock reaches every entry** that matches once, in their order. -/
theorem walk_mockQuery (hbase64 : ∀ bs, decode (encode bs) = some bs)
    (hlogs : logs.length < 2 ^ 64) (hcursor : q.cursor = none) :
    Walk (mockQuery encode decode logs) q (logs.filter q.matchesEntry) := by
  have hlength : (logs.filter q.matchesEntry).length < 2 ^ 64 :=
    Nat.lt_of_le_of_lt (List.length_filter_le _ _) hlogs
  -- by induction on what is left from some index on
  have hfrom : ∀ left start : Nat, ∀ cursor : Option String,
      (logs.filter q.matchesEntry).length - start = left →
      (cursor.map fun cursor ↦ (cursorToIdx decode cursor).getD 0).getD 0 = start →
      Walk (mockQuery encode decode logs) (q.from cursor)
        ((logs.filter q.matchesEntry).drop start) := by
    intro left
    induction left using Nat.strongRecOn with
    | ind left ih =>
        intro start cursor hleft hstart
        obtain ⟨limit, hlimit, hpos⟩ : ∃ limit,
            (if q.limit = 0 then pageSize else q.limit.toNat) = limit ∧ 0 < limit := by
          refine ⟨_, rfl, ?_⟩
          split
          · decide
          · rename_i hne
            exact Nat.pos_of_ne_zero fun h ↦ hne (UInt32.toNat_inj.mp h)
        have hquery : mockQuery encode decode logs (q.from cursor) =
            .ok ⟨((logs.filter q.matchesEntry).drop start).take limit,
              if start + (((logs.filter q.matchesEntry).drop start).take limit).length <
                  (logs.filter q.matchesEntry).length then
                some (cursorFor encode
                  (start + (((logs.filter q.matchesEntry).drop start).take limit).length))
              else none⟩ := by
          rw [← hlimit, ← hstart]
          rfl
        generalize logs.filter q.matchesEntry = matching at hlength hleft hquery ih ⊢
        rw [List.length_take, List.length_drop] at hquery
        by_cases hmore : start + limit < matching.length
        · rw [Nat.min_eq_left (by omega), if_pos hmore] at hquery
          have hrest := ih (matching.length - (start + limit)) (by omega) (start + limit)
            (some (cursorFor encode (start + limit))) rfl (by
              rw [Option.map_some, Option.getD_some,
                cursorToIdx_cursorFor hbase64 (Nat.lt_trans hmore hlength), Option.getD_some])
          rw [← List.take_append_drop limit (matching.drop start), List.drop_drop]
          refine .more hquery rfl ?_ hrest
          intro hnone
          have hzero := congrArg List.length hnone
          rw [List.length_take, List.length_drop, List.length_nil] at hzero
          omega
        · have hall : (matching.drop start).take limit = matching.drop start := by
            refine List.take_of_length_le ?_
            rw [List.length_drop]
            omega
          rw [if_neg (by omega), hall] at hquery
          exact .last hquery (.inl rfl)
  have hwalk := hfrom _ 0 none rfl rfl
  rw [List.drop_zero, LogQuery.from, ← hcursor] at hwalk
  exact hwalk

end Mock

end Vaiexia.Backend
