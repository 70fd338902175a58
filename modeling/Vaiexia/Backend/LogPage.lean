import Mathlib.Data.List.Infix
import Vaiexia.Backend.Capped
import Vaiexia.Backend.Logs
import Vaiexia.Lib.JsonText

/-!
# The page of a log

The loop of `JournaldLogs::query` over the lines that it read, with its variables.  It makes the
page that `journaldQuery` has (`extractPage_eq`).

The output is cut at a cap, and nothing takes the piece of a line away that it ends with then.  It
is no JSON text, since a line is an object, so that no entry comes from it (`extractPage_capped`).
-/

namespace Vaiexia.Backend

open Vaiexia.Lib

variable {fromSlice : Bytes → Option Json}

/-! ## The loop -/

/-- `entries` and `last_cursor` of `query`. -/
structure PageState where
  entries : List LogEntry
  lastCursor : Option String

/-- What `query` does with an entry. -/
def PageState.push (s : PageState) (entry : LogEntry) : PageState where
  entries := s.entries ++ [entry]
  lastCursor := if !entry.cursor.isEmpty then some entry.cursor else s.lastCursor

/-- The loop of `query`.  `fromSlice` reads a JSON document. -/
def pageLoop (fromSlice : Bytes → Option Json) : List Bytes → PageState → PageState
  | [], s => s
  | line :: lines, s =>
      if line.isEmpty then pageLoop fromSlice lines s
      else if maxLines ≤ s.entries.length then s
      else
        match parseJournalLine fromSlice line with
        | some entry => pageLoop fromSlice lines (s.push entry)
        | none => pageLoop fromSlice lines s

/-- The page that `query` makes of `out.stdout`. -/
def extractPage (fromSlice : Bytes → Option Json) (stdout : Bytes) : Page LogEntry :=
  let s := pageLoop fromSlice (stdout.splitOnP (· == 10)) ⟨[], none⟩
  ⟨s.entries, s.lastCursor⟩

/-- `last_cursor` is the last of the cursors that are not empty. -/
def PageState.Tracks (s : PageState) : Prop :=
  s.lastCursor = ((s.entries.filter fun e ↦ !e.cursor.isEmpty).getLast?).map LogEntry.cursor

theorem PageState.Tracks.push {s : PageState} (h : s.Tracks) (entry : LogEntry) :
    (s.push entry).Tracks := by
  rw [Tracks] at h ⊢
  rw [PageState.push, List.filter_append]
  by_cases hempty : entry.cursor.isEmpty = true
  · simp [hempty, h]
  · simp [hempty]

/-- The loop goes on from the entries that it has. -/
theorem pageLoop_spec (fromSlice : Bytes → Option Json) (lines : List Bytes) {s : PageState}
    (htracks : s.Tracks) (hroom : s.entries.length ≤ maxLines) :
    (pageLoop fromSlice lines s).entries =
        s.entries ++ collectEntries fromSlice (maxLines - s.entries.length) lines ∧
      (pageLoop fromSlice lines s).Tracks := by
  induction lines generalizing s with
  | nil => exact ⟨(List.append_nil s.entries).symm, htracks⟩
  | cons line lines ih =>
      rw [pageLoop]
      by_cases hempty : line.isEmpty = true
      · rw [if_pos hempty, collectEntries_of_isEmpty hempty]
        exact ih htracks hroom
      · rw [if_neg hempty]
        rcases Nat.eq_or_lt_of_le hroom with hfull | hless
        · rw [if_pos (Nat.le_of_eq hfull.symm), hfull, Nat.sub_self, collectEntries, if_neg hempty]
          exact ⟨(List.append_nil s.entries).symm, htracks⟩
        · obtain ⟨room, hleft⟩ : ∃ room, maxLines - s.entries.length = room + 1 :=
            ⟨maxLines - s.entries.length - 1, by omega⟩
          rw [if_neg (Nat.not_le_of_lt hless), hleft, collectEntries, if_neg hempty]
          cases hparse : parseJournalLine fromSlice line with
          | none => exact hleft ▸ ih htracks hroom
          | some entry =>
              have hlength : (s.push entry).entries.length = s.entries.length + 1 :=
                List.length_append
              have hless' : maxLines - (s.push entry).entries.length = room := by omega
              have hrest := ih (htracks.push entry) (by omega)
              rw [hless', PageState.push, List.append_assoc] at hrest
              exact hrest

/-- **The loop makes the page of the entries that are collected.** -/
theorem extractPage_eq (stdout : Bytes) :
    extractPage fromSlice stdout =
      journalPage (collectEntries fromSlice maxLines (stdout.splitOnP (· == 10))) := by
  have hstart : PageState.Tracks ⟨[], none⟩ := rfl
  obtain ⟨hentries, htracks⟩ :=
    pageLoop_spec fromSlice (stdout.splitOnP (· == 10)) hstart (Nat.zero_le maxLines)
  rw [List.nil_append] at hentries
  rw [PageState.Tracks, hentries] at htracks
  rw [extractPage, hentries, htracks]
  rfl

theorem runCapped_timedOut (cap : Nat) (child : ChildRun) :
    (runCapped cap child).timedOut = !child.inTime := by
  rw [runCapped]
  by_cases htime : child.inTime = true
  · rw [htime]
    by_cases hlong : cap < child.output.length
    · simp [hlong]
    · simp [hlong]
  · simp [htime]

/-- What is read of a child that is in time. -/
theorem runCapped_stdout {child : ChildRun} (htime : child.inTime = true) (cap : Nat) :
    (runCapped cap child).stdout = child.output.take cap := by
  rw [runCapped, htime]
  by_cases hlong : cap < child.output.length
  · simp [hlong]
  · simp [hlong, List.take_of_length_le (Nat.le_of_not_lt hlong)]

/-- The page of a query is extracted from what was read within the cap. -/
theorem exists_of_journaldQuery {spawn : String → List String → Option ChildRun} {q : LogQuery}
    {page : Page LogEntry} (h : journaldQuery fromSlice spawn q = .ok page) :
    ∃ child : ChildRun, child.inTime = true ∧
      page = extractPage fromSlice (child.output.take maxOutputBytes) := by
  rw [journaldQuery] at h
  split at h
  · cases h
  · split at h
    · cases h
    · split at h
      · cases h
      · rename_i child hspawn
        dsimp only at h
        rw [runCapped_timedOut] at h
        by_cases htime : child.inTime = true
        · refine ⟨child, htime, ?_⟩
          rw [htime, Bool.not_true, if_neg Bool.false_ne_true, runCapped_stdout htime] at h
          split at h
          · cases h
          · rw [extractPage_eq]
            exact (Except.ok.inj h).symm
        · rw [Bool.eq_false_iff.mpr htime, Bool.not_false, if_pos rfl] at h
          cases h

/-! ## A cut -/

/-- What is printed of lines: newlines join them, with one after the last line or none. -/
def printedLines (ended : Bool) (lines : List Bytes) : Bytes :=
  if ended then lines.flatMap (· ++ [10]) else [10].intercalate lines

/-- An entry is read from a text only. -/
theorem parseJournalLine_of_not_isText
    (hjson : ∀ bs v, fromSlice bs = some v → JsonText.IsText bs) {bs : Bytes}
    (h : ¬ JsonText.IsText bs) : parseJournalLine fromSlice bs = none := by
  have hnone : fromSlice bs = none :=
    Option.eq_none_iff_forall_ne_some.mpr fun v hv ↦ h (hjson bs v hv)
  rw [parseJournalLine, hnone]

/-- Nothing is read from what is left of an object that was cut. -/
theorem uncuttable_of_isObject (hjson : ∀ bs v, fromSlice bs = some v → JsonText.IsText bs)
    {lines : List Bytes} (hlines : ∀ line ∈ lines, JsonText.IsObject line ∧ 10 ∉ line) :
    Uncuttable 10 (parseJournalLine fromSlice) lines where
  notMem line hline := (hlines line hline).2
  cut line hline k hk := by
    refine parseJournalLine_of_not_isText hjson
      (JsonText.not_isText_of_prefix (hlines line hline).1 (List.take_prefix k line) fun heq ↦ ?_)
    have hlength := congrArg List.length heq
    rw [List.length_take] at hlength
    omega
  empty := parseJournalLine_of_not_isText hjson fun h ↦ h.ne_nil rfl

theorem pieceEntry_eq (hempty : parseJournalLine fromSlice [] = none) :
    pieceEntry fromSlice = parseJournalLine fromSlice := by
  funext piece
  rw [pieceEntry]
  split
  · rename_i hpiece
    rw [List.isEmpty_iff.mp hpiece, hempty]
  · rfl

/-- **The entries of an output that was cut** are those of its whole lines. -/
theorem extractPage_take_items (hjson : ∀ bs v, fromSlice bs = some v → JsonText.IsText bs)
    {lines : List Bytes} (hlines : ∀ line ∈ lines, JsonText.IsObject line ∧ 10 ∉ line)
    (ended : Bool) (cap : Nat) :
    (extractPage fromSlice ((printedLines ended lines).take cap)).items =
      ((wholeLines cap lines).filterMap (parseJournalLine fromSlice)).take maxLines := by
  have huncut := uncuttable_of_isObject hjson hlines
  rw [extractPage_eq, journalPage, collectEntries_eq_take, pieceEntry_eq huncut.empty]
  cases ended with
  | false => rw [printedLines, if_neg Bool.false_ne_true, filterMap_splitOnP_take huncut]
  | true =>
      rw [printedLines, if_pos rfl, ← intercalate_concat_nil,
        filterMap_splitOnP_take huncut.concat_nil, filterMap_wholeLines_concat_nil huncut.empty]

/-- The entries of an output that was not cut are those of its lines. -/
theorem extractPage_items (hjson : ∀ bs v, fromSlice bs = some v → JsonText.IsText bs)
    {lines : List Bytes} (hlines : ∀ line ∈ lines, JsonText.IsObject line ∧ 10 ∉ line)
    (ended : Bool) :
    (extractPage fromSlice (printedLines ended lines)).items =
      (lines.filterMap (parseJournalLine fromSlice)).take maxLines := by
  have hcut := extractPage_take_items hjson hlines ended
    ((printedLines ended lines).length + (printedLines true lines).length)
  rwa [List.take_of_length_le (Nat.le_add_right _ _),
    wholeLines_eq_self 10 (by exact Nat.le_add_left _ _)] at hcut

/-- **Capped capture does not corrupt a page.**  For every reader of JSON documents, all lines that
are objects without a newline, every cap, and however the output comes in: the entries that are
extracted from what `read_capped` returns are the first ones of those that are extracted from the
whole output, and those of the lines that end within the cap, so that none comes from a line that
was cut; and the next cursor is that of the last of them with a cursor that is not empty. -/
theorem readCapped_extractPage (hjson : ∀ bs v, fromSlice bs = some v → JsonText.IsText bs)
    {lines : List Bytes} (hlines : ∀ line ∈ lines, JsonText.IsObject line ∧ 10 ∉ line)
    {ended : Bool} {chunks : List Chunk} (hstream : stream chunks = printedLines ended lines)
    (cap : Nat) :
    ∃ read, readCapped cap chunks = some read ∧
      (extractPage fromSlice read.bytes).items <+:
        (extractPage fromSlice (stream chunks)).items ∧
      (∃ n ≤ lines.length,
        (∀ m ≤ lines.length, ([10].intercalate (lines.take m)).length ≤ cap ↔ m ≤ n) ∧
        (extractPage fromSlice read.bytes).items =
          ((lines.take n).filterMap (parseJournalLine fromSlice)).take maxLines) ∧
      (extractPage fromSlice read.bytes).next =
        (((extractPage fromSlice read.bytes).items.filter fun e ↦ !e.cursor.isEmpty).getLast?).map
          LogEntry.cursor := by
  have hne : ∀ line ∈ lines, line ≠ [] := by
    intro line hline
    obtain ⟨body, rfl, -⟩ := (hlines line hline).1
    exact List.cons_ne_nil _ _
  obtain ⟨n, hn, hwhole, hfits⟩ := exists_wholeLines_eq_take 10 hne cap
  refine ⟨_, readCapped_eq cap chunks, ?_⟩
  have hitems := extractPage_take_items hjson hlines ended cap
  rw [hwhole] at hitems
  rw [hstream]
  refine ⟨?_, ⟨n, hn, hfits, hitems⟩, by rw [extractPage_eq]; rfl⟩
  rw [hitems, extractPage_items hjson hlines]
  exact List.IsPrefix.take (List.IsPrefix.filterMap _ (List.take_prefix n lines)) maxLines

/-- A reader of one line. -/
def readOne (bs : Bytes) : Option Json :=
  if bs = (cursorLine "s=1").line then some (.obj [("__CURSOR", .str "s=1")]) else none

theorem isObject_cursorLine : JsonText.IsObject (cursorLine "s=1").line := by
  have hkey : JsonText.IsString (Utf8.encode ['"', '_', '_', 'C', 'U', 'R', 'S', 'O', 'R', '"']) :=
    .mk (.of_all (show (Utf8.encode "__CURSOR".toList).all _ = true by decide))
  have hcursor : JsonText.IsString (Utf8.encode ['"', 's', '=', '1', '"']) :=
    .mk (.of_all (show (Utf8.encode "s=1".toList).all _ = true by decide))
  have hmember := JsonText.Derives.member (a := []) (b := []) (c := []) (d := []) nofun hkey nofun
    nofun (.str hcursor) nofun
  exact ⟨_, by decide +kernel, .inr hmember⟩

theorem isText_of_readOne (bs : Bytes) (v : Json) (h : readOne bs = some v) :
    JsonText.IsText bs := by
  rw [readOne] at h
  split at h
  · rename_i heq
    obtain ⟨body, hbody, hinside⟩ := isObject_cursorLine
    rw [heq, hbody]
    refine ⟨[], 0x7B :: (body ++ [0x7D]), [], (List.append_nil _).symm, nofun, ?_, nofun⟩
    rcases hinside with hblanks | hmembers
    · exact .emptyObj hblanks
    · exact .obj hmembers
  · cases h

/-- Two lines. -/
def twoLines : Chunk :=
  ⟨printedLines true [(cursorLine "s=1").line, (cursorLine "s=1").line], by decide +kernel⟩

/-- Two lines, and a cut in the second one. -/
theorem readCapped_extractPage_two :
    ∃ read, readCapped 20 [twoLines] = some read ∧
      (extractPage readOne read.bytes).items <+: (extractPage readOne (stream [twoLines])).items ∧
      (∃ n ≤ 2,
        (∀ m ≤ 2, ([10].intercalate ((List.replicate 2 (cursorLine "s=1").line).take m)).length ≤ 20
          ↔ m ≤ n) ∧
        (extractPage readOne read.bytes).items =
          (((List.replicate 2 (cursorLine "s=1").line).take n).filterMap
            (parseJournalLine readOne)).take maxLines) ∧
      (extractPage readOne read.bytes).next =
        (((extractPage readOne read.bytes).items.filter fun e ↦ !e.cursor.isEmpty).getLast?).map
          LogEntry.cursor := by
  have hlines : ∀ line ∈ List.replicate 2 (cursorLine "s=1").line,
      JsonText.IsObject line ∧ 10 ∉ line := by
    intro line hline
    rw [List.eq_of_mem_replicate hline]
    exact ⟨isObject_cursorLine, by decide +kernel⟩
  have hstream : stream [twoLines] =
      printedLines true (List.replicate 2 (cursorLine "s=1").line) := List.append_nil _
  exact readCapped_extractPage isText_of_readOne hlines hstream 20

end Vaiexia.Backend
