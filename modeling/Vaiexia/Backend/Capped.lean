import Vaiexia.Lib.Loop
import Vaiexia.Backend.Logs

/-!
# Capped reading

`read_capped` and `read_line_capped` of `crates/vaiexia-server/src/backend/capped.rs`.  A stream
comes in chunks, none of them empty: what one `read` returns, or what the buffer of a buffered
reader holds at a time.  A slice out of bounds and an index below zero are panics.

Neither function depends on where the chunks end (`readCapped_eq`, `linesRead_lines`).
-/

namespace Vaiexia.Backend

open Vaiexia.Lib

/-- Bytes that are there to be read. -/
structure Chunk where
  bytes : Bytes
  ne_nil : bytes ≠ []

/-- The stream that chunks make up. -/
def stream (chunks : List Chunk) : Bytes := chunks.flatMap Chunk.bytes

@[simp] theorem stream_nil : stream [] = [] := rfl

@[simp] theorem stream_cons (chunk : Chunk) (chunks : List Chunk) :
    stream (chunk :: chunks) = chunk.bytes ++ stream chunks := List.flatMap_cons

/-- `&xs[..last]`; `none` is a panic. -/
def sliceTo (xs : Bytes) (last : Nat) : Option Bytes :=
  if last ≤ xs.length then some (xs.take last) else none

theorem sliceTo_of_le {xs : Bytes} {last : Nat} (h : last ≤ xs.length) :
    sliceTo xs last = some (xs.take last) := if_pos h

/-- `a - b` of `usize`; `none` is an underflow. -/
def checkedSub (a b : Nat) : Option Nat := if b ≤ a then some (a - b) else none

/-! ## Bulk reading -/

/-- `CappedRead`. -/
structure CappedRead where
  bytes : Bytes
  truncated : Bool
deriving DecidableEq

/-- The variables of `read_capped`, and what the stream still has. -/
structure CappedState where
  chunks : List Chunk
  bytes : Bytes

/-- The body of the loop of `read_capped`. -/
def cappedBody (cap : Nat) (s : CappedState) : Option (Next CappedState CappedRead) :=
  match s.chunks with
  | [] => some (.stop ⟨s.bytes, false⟩)
  | chunk :: rest => do
      let room ← checkedSub cap s.bytes.length
      if room < chunk.bytes.length then
        let part ← sliceTo chunk.bytes room
        return .stop ⟨s.bytes ++ part, true⟩
      else return .go ⟨rest, s.bytes ++ chunk.bytes⟩

/-- `read_capped`; `none` is a panic. -/
def readCapped (cap : Nat) (chunks : List Chunk) : Option CappedRead :=
  match Loop.run (cappedBody cap) (chunks.length + 1) ⟨chunks, []⟩ with
  | some (.stop read) => some read
  | _ => none

/-- From a state within the cap the loop ends with what fits of what is left. -/
theorem run_cappedBody {cap : Nat} (chunks : List Chunk) {bytes : Bytes}
    (hle : bytes.length ≤ cap) :
    Loop.run (cappedBody cap) (chunks.length + 1) ⟨chunks, bytes⟩ =
      some (.stop ⟨(bytes ++ stream chunks).take cap,
        decide (cap < (bytes ++ stream chunks).length)⟩) := by
  induction chunks generalizing bytes with
  | nil =>
      rw [stream_nil, List.append_nil, List.take_of_length_le hle,
        decide_eq_false (Nat.not_lt.mpr hle)]
      rfl
  | cons chunk chunks ih =>
      rw [List.length_cons, Loop.run, cappedBody, checkedSub, if_pos hle, stream_cons]
      by_cases hroom : cap - bytes.length < chunk.bytes.length
      · have hlong : cap < (bytes ++ (chunk.bytes ++ stream chunks)).length := by
          rw [List.length_append, List.length_append]
          omega
        rw [decide_eq_true hlong, List.take_append, List.take_of_length_le hle,
          List.take_append_of_le_length (Nat.le_of_lt hroom)]
        simp [hroom, sliceTo_of_le (Nat.le_of_lt hroom)]
      · have hfits : (bytes ++ chunk.bytes).length ≤ cap := by
          rw [List.length_append]
          omega
        simp only [Option.bind_eq_bind, Option.bind_some, if_neg hroom]
        rw [← List.append_assoc]
        exact ih hfits

/-- **`read_capped`** returns the bytes up to the cap, whatever the reads bring, and whether there
are more. -/
theorem readCapped_eq (cap : Nat) (chunks : List Chunk) :
    readCapped cap chunks =
      some ⟨(stream chunks).take cap, decide (cap < (stream chunks).length)⟩ := by
  rw [readCapped, run_cappedBody chunks (Nat.zero_le cap), List.nil_append]

/-! ## Reading a line -/

/-- What `read_line_capped` returns, what it leaves in the buffer, and what it leaves unread. -/
structure LineRead where
  result : Option Bool
  buf : Bytes
  rest : List Chunk

/-- The variables of `read_line_capped`, and what the reader still has. -/
structure LineState where
  chunks : List Chunk
  buf : Bytes
  truncated : Bool

/-- `consume`: what is left of the chunks when so many bytes of the first one are used up. -/
def consume (n : Nat) (chunk : Chunk) (rest : List Chunk) : List Chunk :=
  if h : chunk.bytes.drop n = [] then rest else ⟨chunk.bytes.drop n, h⟩ :: rest

theorem stream_consume (n : Nat) (chunk : Chunk) (rest : List Chunk) :
    stream (consume n chunk rest) = chunk.bytes.drop n ++ stream rest := by
  rw [consume]
  split
  · rename_i h
    rw [h, List.nil_append]
  · rw [stream_cons]

/-- Storing the part of a line, `upto` bytes of a chunk, that there is room for. -/
def store (max : Nat) (buf : Bytes) (truncated : Bool) (available : Bytes) (upto : Nat) :
    Option (Bytes × Bool) :=
  if truncated then some (buf, truncated)
  else do
    let room := max - buf.length
    let take := min room upto
    let part ← sliceTo available take
    return (buf ++ part, decide (take < upto))

/-- The body of the loop of `read_line_capped`. -/
def lineBody (max : Nat) (s : LineState) : Option (Next LineState LineRead) :=
  match s.chunks with
  | [] =>
      if s.buf.isEmpty && !s.truncated then some (.stop ⟨none, s.buf, []⟩)
      else some (.stop ⟨some (!s.truncated), s.buf, []⟩)
  | chunk :: rest => do
      let newline := chunk.bytes.findIdx? (· == 10)
      let (buf, truncated) ←
        store max s.buf s.truncated chunk.bytes (newline.getD chunk.bytes.length)
      match newline with
      | some pos => return .stop ⟨some (!truncated), buf, consume (pos + 1) chunk rest⟩
      | none => return .go ⟨rest, buf, truncated⟩

/-- The state when the loop begins, with the buffer cleared. -/
def LineState.start (chunks : List Chunk) : LineState where
  chunks := chunks
  buf := []
  truncated := false

/-- `read_line_capped`; `none` is a panic. -/
def readLineCapped (max : Nat) (chunks : List Chunk) : Option LineRead :=
  match Loop.run (lineBody max) (chunks.length + 1) (.start chunks) with
  | some (.stop read) => some read
  | _ => none

/-- **Storing** a part of the line keeps what the buffer holds. -/
theorem store_eq {max upto : Nat} {seen available : Bytes} (hupto : upto ≤ available.length) :
    store max (seen.take max) (decide (max < seen.length)) available upto =
      some ((seen ++ available.take upto).take max,
        decide (max < (seen ++ available.take upto).length)) := by
  have hlen : (seen ++ available.take upto).length = seen.length + upto := by
    rw [List.length_append, List.length_take, Nat.min_eq_left hupto]
  rw [hlen, store]
  by_cases hfull : max < seen.length
  · rw [if_pos (decide_eq_true hfull), List.take_append_of_le_length (Nat.le_of_lt hfull),
      decide_eq_true hfull, decide_eq_true (by omega)]
  · have hseen : seen.length ≤ max := Nat.not_lt.mp hfull
    have htake : min (max - seen.length) upto ≤ available.length :=
      Nat.le_trans (Nat.min_le_right _ _) hupto
    have hlt : min (max - seen.length) upto < upto ↔ max < seen.length + upto := by omega
    rw [if_neg (by simpa using hfull), List.take_append, List.take_of_length_le hseen,
      List.take_take]
    simp [sliceTo_of_le htake, hlt]

/-- The state when this part of a line was seen: the buffer holds as much of it as fits, and the
flag says whether that is not all. -/
def LineState.after (max : Nat) (chunks : List Chunk) (seen : Bytes) : LineState where
  chunks := chunks
  buf := seen.take max
  truncated := decide (max < seen.length)

theorem LineState.after_nil (max : Nat) (chunks : List Chunk) :
    LineState.after max chunks [] = .start chunks := by
  rw [after, start, List.take_nil]
  rfl

theorem findIdx?_notMem {part : Bytes} (hpart : 10 ∉ part) : part.findIdx? (· == 10) = none := by
  rw [List.findIdx?_eq_none_iff]
  intro b hb
  rw [beq_eq_false_iff_ne]
  rintro rfl
  exact hpart hb

theorem findIdx?_newline {part : Bytes} (hpart : 10 ∉ part) (more : Bytes) :
    (part ++ 10 :: more).findIdx? (· == 10) = some part.length := by
  rw [List.findIdx?_append, findIdx?_notMem hpart, List.findIdx?_cons]
  simp

/-- A round that finds the newline. -/
theorem lineBody_newline {max : Nat} {seen part more : Bytes} {chunk : Chunk} {rest : List Chunk}
    (hpart : 10 ∉ part) (hchunk : chunk.bytes = part ++ 10 :: more) :
    lineBody max (.after max (chunk :: rest) seen) =
      some (.stop ⟨some (decide ((seen ++ part).length ≤ max)), (seen ++ part).take max,
        consume (part.length + 1) chunk rest⟩) := by
  have hfind : chunk.bytes.findIdx? (· == 10) = some part.length :=
    hchunk ▸ findIdx?_newline hpart more
  have hle : part.length ≤ chunk.bytes.length := by
    rw [hchunk, List.length_append]
    omega
  have htake : chunk.bytes.take part.length = part := by rw [hchunk, List.take_left]
  have hflag : (!decide (max < (seen ++ part).length)) = decide ((seen ++ part).length ≤ max) := by
    rw [← decide_not]
    exact decide_eq_decide.mpr Nat.not_lt
  simp only [lineBody, LineState.after, hfind, Option.getD_some, store_eq hle, htake, hflag,
    Option.bind_eq_bind, Option.bind_some]
  rfl

/-- A round that finds no newline. -/
theorem lineBody_notMem {max : Nat} {seen : Bytes} {chunk : Chunk} {rest : List Chunk}
    (hchunk : 10 ∉ chunk.bytes) :
    lineBody max (.after max (chunk :: rest) seen) =
      some (.go (.after max rest (seen ++ chunk.bytes))) := by
  simp only [lineBody, LineState.after, findIdx?_notMem hchunk, Option.getD_none,
    store_eq (Nat.le_refl _), List.take_length, Option.bind_eq_bind, Option.bind_some]
  rfl

/-- A round at the end of the stream. -/
theorem lineBody_nil {max : Nat} (seen : Bytes) :
    lineBody max (.after max [] seen) =
      some (.stop ⟨if seen = [] then none else some (decide (seen.length ≤ max)), seen.take max,
        []⟩) := by
  have hflag : (!decide (max < seen.length)) = decide (seen.length ≤ max) := by
    rw [← decide_not]
    exact decide_eq_decide.mpr Nat.not_lt
  have hempty : ((seen.take max).isEmpty && !decide (max < seen.length)) = true ↔ seen = [] := by
    rw [hflag, Bool.and_eq_true, List.isEmpty_iff, decide_eq_true_iff]
    constructor
    · rintro ⟨htake, hle⟩
      rwa [List.take_of_length_le hle] at htake
    · rintro rfl
      exact ⟨List.take_nil, Nat.zero_le _⟩
  rw [lineBody, LineState.after, ← hflag]
  by_cases hseen : seen = []
  · rw [if_pos (hempty.mpr hseen), if_pos hseen]
  · rw [if_neg fun h ↦ hseen (hempty.mp h), if_neg hseen]

/-- The loop up to a newline: it ends with the line, as far as it fits, and leaves what comes
after. -/
theorem run_lineBody_newline {max : Nat} (chunks : List Chunk) {seen line after : Bytes}
    (hline : 10 ∉ line) (hstream : stream chunks = line ++ 10 :: after) :
    ∃ rest, stream rest = after ∧
      Loop.run (lineBody max) (chunks.length + 1) (.after max chunks seen) =
        some (.stop
          ⟨some (decide ((seen ++ line).length ≤ max)), (seen ++ line).take max, rest⟩) := by
  induction chunks generalizing seen line with
  | nil => simp at hstream
  | cons chunk chunks ih =>
      rw [stream_cons] at hstream
      have hgo : ∀ line', line = chunk.bytes ++ line' → stream chunks = line' ++ 10 :: after →
          ∃ rest, stream rest = after ∧
            Loop.run (lineBody max) (chunks.length + 1 + 1) (.after max (chunk :: chunks) seen) =
              some (.stop ⟨some (decide ((seen ++ line).length ≤ max)), (seen ++ line).take max,
                rest⟩) := by
        rintro line' rfl hrest
        have hchunk : 10 ∉ chunk.bytes := fun h ↦ hline (List.mem_append_left _ h)
        have hline' : 10 ∉ line' := fun h ↦ hline (List.mem_append_right _ h)
        rw [Loop.run_succ_of_go (lineBody_notMem hchunk), ← List.append_assoc]
        exact ih hline' hrest
      rcases List.append_eq_append_iff.mp hstream with
        ⟨line', hline', hrest⟩ | ⟨more, hchunk, hmore⟩
      · exact hgo line' hline' hrest
      · cases more with
        | nil =>
            rw [List.append_nil] at hchunk
            exact hgo [] (by rw [hchunk, List.append_nil]) hmore.symm
        | cons c more =>
            obtain ⟨rfl, rfl⟩ := List.cons.inj hmore
            refine ⟨_, ?_, Loop.run_succ_of_stop (lineBody_newline hline hchunk)⟩
            rw [stream_consume, hchunk, List.drop_append]
            simp

/-- The loop to the end of the stream. -/
theorem run_lineBody_end {max : Nat} (chunks : List Chunk) {seen : Bytes}
    (hend : 10 ∉ stream chunks) :
    Loop.run (lineBody max) (chunks.length + 1) (.after max chunks seen) =
      some (.stop ⟨if seen ++ stream chunks = [] then none
        else some (decide ((seen ++ stream chunks).length ≤ max)),
        (seen ++ stream chunks).take max, []⟩) := by
  induction chunks generalizing seen with
  | nil =>
      rw [stream_nil, List.append_nil]
      exact Loop.run_succ_of_stop (lineBody_nil seen)
  | cons chunk chunks ih =>
      rw [stream_cons] at hend
      have hchunk : 10 ∉ chunk.bytes := fun h ↦ hend (List.mem_append_left _ h)
      have hrest : 10 ∉ stream chunks := fun h ↦ hend (List.mem_append_right _ h)
      rw [List.length_cons, Loop.run_succ_of_go (lineBody_notMem hchunk), stream_cons,
        ← List.append_assoc]
      exact ih hrest

/-! ## Reading all lines -/

/-- The lines of a stream: what is between newlines, and an unterminated tail that is not empty. -/
def streamLines (bs : Bytes) : List Bytes :=
  let pieces := bs.splitOnP (· == 10)
  if pieces.getLast? = some [] then pieces.dropLast else pieces

/-- What is returned for a line, and left in the buffer. -/
def cappedLine (max : Nat) (line : Bytes) : Bool × Bytes :=
  (decide (line.length ≤ max), line.take max)

/-- The results of the calls up to the first that returns `None`, each with its buffer. -/
inductive LinesRead (max : Nat) : List Chunk → List (Bool × Bytes) → Prop
  | done {chunks : List Chunk} {buf : Bytes} {rest : List Chunk}
      (hread : readLineCapped max chunks = some ⟨none, buf, rest⟩) : LinesRead max chunks []
  | line {chunks : List Chunk} {full : Bool} {buf : Bytes} {rest : List Chunk}
      {lines : List (Bool × Bytes)}
      (hread : readLineCapped max chunks = some ⟨some full, buf, rest⟩)
      (hrest : LinesRead max rest lines) : LinesRead max chunks ((full, buf) :: lines)

theorem splitOnP_notMem {line : Bytes} (hline : 10 ∉ line) :
    line.splitOnP (· == 10) = [line] := by
  refine List.splitOnP_eq_singleton fun b hb ↦ ?_
  rw [beq_eq_false_iff_ne]
  rintro rfl
  exact hline hb

/-- An unterminated tail is a line. -/
theorem streamLines_tail {line : Bytes} (hline : 10 ∉ line) (hne : line ≠ []) :
    streamLines line = [line] := by
  rw [streamLines, splitOnP_notMem hline]
  simp [hne]

/-- A terminated line is the first one. -/
theorem streamLines_newline {line : Bytes} (hline : 10 ∉ line) (after : Bytes) :
    streamLines (line ++ 10 :: after) = line :: streamLines after := by
  have hsplit : (line ++ 10 :: after).splitOnP (· == 10) = line :: after.splitOnP (· == 10) := by
    rw [List.splitOnP_append_cons _ _ (by decide), splitOnP_notMem hline, List.singleton_append]
  have hne := List.splitOnP_ne_nil (· == 10) after
  rw [streamLines, streamLines, hsplit, List.getLast?_cons_of_ne_nil hne,
    List.dropLast_cons_of_ne_nil hne]
  split <;> rfl

theorem readLineCapped_of_run {max : Nat} {chunks : List Chunk} {read : LineRead}
    (hrun : Loop.run (lineBody max) (chunks.length + 1) (.after max chunks []) =
      some (.stop read)) : readLineCapped max chunks = some read := by
  rw [LineState.after_nil] at hrun
  rw [readLineCapped, hrun]

/-- A call at a line that ends with a newline. -/
theorem readLineCapped_newline {max : Nat} {chunks : List Chunk} {line after : Bytes}
    (hline : 10 ∉ line) (hstream : stream chunks = line ++ 10 :: after) :
    ∃ rest, stream rest = after ∧ readLineCapped max chunks =
      some ⟨some (cappedLine max line).1, (cappedLine max line).2, rest⟩ := by
  obtain ⟨rest, hrest, hrun⟩ := run_lineBody_newline chunks hline hstream
  exact ⟨rest, hrest, readLineCapped_of_run hrun⟩

/-- A call at what comes after the last newline. -/
theorem readLineCapped_end {max : Nat} {chunks : List Chunk} (hend : 10 ∉ stream chunks) :
    readLineCapped max chunks = some ⟨if stream chunks = [] then none
      else some (cappedLine max (stream chunks)).1, (cappedLine max (stream chunks)).2, []⟩ :=
  readLineCapped_of_run (run_lineBody_end chunks hend)

/-- The calls up to the end return the lines of the stream, each in full or cut. -/
theorem linesRead_streamLines (max : Nat) (chunks : List Chunk) :
    LinesRead max chunks ((streamLines (stream chunks)).map (cappedLine max)) := by
  -- by induction on the stream, which every line makes shorter
  induction hlen : (stream chunks).length using Nat.strongRecOn generalizing chunks with
  | ind n ih =>
      by_cases hmem : 10 ∈ stream chunks
      · obtain ⟨line, after, hstream, hline⟩ := List.eq_append_cons_of_mem hmem
        obtain ⟨rest, rfl, hread⟩ := readLineCapped_newline hline hstream
        rw [hstream, streamLines_newline hline, List.map_cons]
        refine .line hread (ih _ ?_ rest rfl)
        rw [← hlen, hstream, List.length_append, List.length_cons]
        omega
      · have hread : readLineCapped max chunks = _ := readLineCapped_end hmem
        by_cases hnil : stream chunks = []
        · rw [if_pos hnil] at hread
          rw [hnil]
          exact .done hread
        · rw [if_neg hnil] at hread
          rw [streamLines_tail hmem hnil]
          exact .line hread (.done (readLineCapped_end List.not_mem_nil))

/-- A round leaves the buffer within the maximum. -/
theorem lineBody_go {max : Nat} {s s' : LineState} (hs : ∃ seen, s = .after max s.chunks seen)
    (hbody : lineBody max s = some (.go s')) : ∃ seen, s' = .after max s'.chunks seen := by
  obtain ⟨seen, hs⟩ := hs
  rw [hs] at hbody
  cases hchunks : s.chunks with
  | nil =>
      rw [hchunks, lineBody_nil] at hbody
      cases hbody
  | cons chunk rest =>
      rw [hchunks] at hbody
      by_cases hmem : 10 ∈ chunk.bytes
      · obtain ⟨part, more, hchunk, hpart⟩ := List.eq_append_cons_of_mem hmem
        rw [lineBody_newline hpart hchunk] at hbody
        cases hbody
      · rw [lineBody_notMem hmem] at hbody
        obtain rfl : LineState.after max rest (seen ++ chunk.bytes) = s' := by simpa using hbody
        exact ⟨_, rfl⟩

/-- **Reading a stream line by line.**  However the stream is divided into chunks, the calls up to
the end return its lines in their order, each in full or cut at the maximum; and the buffer never
holds more than the maximum. -/
theorem linesRead_lines (max : Nat) (chunks : List Chunk) :
    LinesRead max chunks ((streamLines (stream chunks)).map (cappedLine max)) ∧
      ∀ rounds s, Loop.run (lineBody max) rounds (.start chunks) = some (.go s) →
        s.buf.length ≤ max := by
  refine ⟨linesRead_streamLines max chunks, fun rounds s hrun ↦ ?_⟩
  obtain ⟨seen, hs⟩ := Loop.run_go_of_inv (fun s ↦ ∃ seen, s = LineState.after max s.chunks seen)
    (fun _ _ ↦ lineBody_go) ⟨[], (LineState.after_nil max chunks).symm⟩ hrun
  rw [hs]
  exact List.length_take_le _ _

end Vaiexia.Backend
