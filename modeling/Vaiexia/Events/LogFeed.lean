import Vaiexia.Backend.Capped
import Vaiexia.Events.Relay

/-!
# Log events

`follow_journal` of `logs/linux.rs` reads what `journalctl --follow` prints, line by line, and sends
the entries on the channel to which `logs_pump::run` subscribes.  `log_events` says which entries a
receiver of `server.logs` can be given, and in what order.
-/

namespace Vaiexia.Events

open Vaiexia.Lib Vaiexia.Backend

/-- `MAX_FOLLOW_LINE_BYTES`. -/
def maxFollowLineBytes : Nat := 1024 * 1024

/-- `logs_pump::run`, with the channel that `JournaldLogs::new` makes. -/
def logsFeed {β : Type} (topicCapacity : Nat) (payload : LogEntry → β) : Feed LogEntry β where
  capacity := 256
  topicCapacity := topicCapacity
  payload := payload

/-- What `follow_journal` has not read yet, in the pieces in which it comes, and whether it has
returned; and the pump with its channels. -/
structure LogFeed (ρ β : Type) where
  unread : List Chunk
  ended : Bool
  relay : Relay ρ LogEntry β

namespace LogFeed

variable {ρ β : Type}

/-- Before anything was read, when `journalctl` prints this. -/
def new (chunks : List Chunk) : LogFeed ρ β where
  unread := chunks
  ended := false
  relay := .new

/-- A line was read; one that was too long is skipped. -/
def follow (fromSlice : Bytes → Option Json) (full : Bool) (buf : Bytes)
    (s : Relay ρ LogEntry β) : Relay ρ LogEntry β :=
  if full then
    match parseJournalLine fromSlice buf with
    | some entry => s.publish entry
    | none => s
  else s

/-- One step of `follow_journal`, of the pump, or of a receiver of the topic. -/
inductive Step [DecidableEq ρ] (fromSlice : Bytes → Option Json) (feed : Feed LogEntry β) :
    LogFeed ρ β → LogFeed ρ β → Prop
  | line {f : LogFeed ρ β} {full : Bool} {buf : Bytes} {rest : List Chunk}
      (hopen : f.ended = false)
      (hread : readLineCapped maxFollowLineBytes f.unread = some ⟨some full, buf, rest⟩) :
      Step fromSlice feed f
        { f with unread := rest, relay := follow fromSlice full buf f.relay }
  /-- The end of the stream. -/
  | eof {f : LogFeed ρ β} {buf : Bytes} {rest : List Chunk} (hopen : f.ended = false)
      (hread : readLineCapped maxFollowLineBytes f.unread = some ⟨none, buf, rest⟩) :
      Step fromSlice feed f { f with ended := true }
  /-- A read that fails, or the provider is dropped. -/
  | fail {f : LogFeed ρ β} : Step fromSlice feed f { f with ended := true }
  | pump {f : LogFeed ρ β} {s : Relay ρ LogEntry β} (h : Relay.Step feed f.relay s)
      (hpub : s.published = f.relay.published) : Step fromSlice feed f { f with relay := s }

/-- Any interleaving. -/
abbrev Run [DecidableEq ρ] (fromSlice : Bytes → Option Json) (feed : Feed LogEntry β) :
    LogFeed ρ β → LogFeed ρ β → Prop :=
  Relation.ReflTransGen (Step fromSlice feed)

/-- The entries of a stream: those of its lines that are not too long. -/
def entriesOf (fromSlice : Bytes → Option Json) (bs : Bytes) : List LogEntry :=
  ((streamLines bs).filter (·.length ≤ maxFollowLineBytes)).filterMap (parseJournalLine fromSlice)

/-- The entry of a line that was read, if there is one. -/
def entryOf (fromSlice : Bytes → Option Json) (full : Bool) (buf : Bytes) : List LogEntry :=
  if full then (parseJournalLine fromSlice buf).toList else []

/-! ## Reading -/

section Reading

variable {fromSlice : Bytes → Option Json}

/-- A call that returns a line takes the first one from the stream. -/
theorem streamLines_of_readLineCapped {max : Nat} {chunks rest : List Chunk} {full : Bool}
    {buf : Bytes} (hread : readLineCapped max chunks = some ⟨some full, buf, rest⟩) :
    ∃ line, streamLines (stream chunks) = line :: streamLines (stream rest) ∧
      (full, buf) = cappedLine max line := by
  by_cases hmem : 10 ∈ stream chunks
  · obtain ⟨line, after, hstream, hline⟩ := List.eq_append_cons_of_mem hmem
    obtain ⟨rest', rfl, hread'⟩ := @readLineCapped_newline max _ _ _ hline hstream
    rw [hread] at hread'
    simp only [Option.some.injEq, LineRead.mk.injEq] at hread'
    obtain ⟨rfl, rfl, rfl⟩ := hread'
    exact ⟨line, by rw [hstream, streamLines_newline hline], rfl⟩
  · have hread' := @readLineCapped_end max _ hmem
    rw [hread] at hread'
    by_cases hnil : stream chunks = []
    · rw [if_pos hnil] at hread'
      simp at hread'
    · rw [if_neg hnil] at hread'
      simp only [Option.some.injEq, LineRead.mk.injEq] at hread'
      obtain ⟨rfl, rfl, rfl⟩ := hread'
      exact ⟨stream chunks, streamLines_tail hmem hnil, rfl⟩

/-- The entries of a stream are that of the line that is read, and those of the rest. -/
theorem entriesOf_of_readLineCapped {chunks rest : List Chunk} {full : Bool} {buf : Bytes}
    (hread : readLineCapped maxFollowLineBytes chunks = some ⟨some full, buf, rest⟩) :
    entriesOf fromSlice (stream chunks)
      = entryOf fromSlice full buf ++ entriesOf fromSlice (stream rest) := by
  obtain ⟨line, hlines, hcapped⟩ := streamLines_of_readLineCapped hread
  obtain ⟨rfl, rfl⟩ := Prod.mk.inj hcapped
  unfold entriesOf entryOf
  rw [hlines]
  by_cases hlen : line.length ≤ maxFollowLineBytes
  · rw [List.filter_cons_of_pos (by simpa using hlen), List.filterMap_cons,
      if_pos (by simpa using hlen), List.take_of_length_le hlen]
    cases parseJournalLine fromSlice line <;> rfl
  · rw [List.filter_cons_of_neg (by simpa using hlen), if_neg (by simpa using hlen),
      List.nil_append]

theorem published_follow (full : Bool) (buf : Bytes) (s : Relay ρ LogEntry β) :
    (follow fromSlice full buf s).published = s.published ++ entryOf fromSlice full buf := by
  unfold follow entryOf
  cases full with
  | false => exact (List.append_nil _).symm
  | true =>
      cases parseJournalLine fromSlice buf with
      | none => exact (List.append_nil _).symm
      | some entry => rfl

theorem run_follow [DecidableEq ρ] {feed : Feed LogEntry β} (full : Bool) (buf : Bytes)
    (s : Relay ρ LogEntry β) : Relay.Run feed s (follow fromSlice full buf s) := by
  unfold follow
  cases full with
  | false => exact .refl
  | true =>
      cases parseJournalLine fromSlice buf with
      | none => exact .refl
      | some entry => exact .single (.publish entry)

end Reading

/-! ## What a receiver sees -/

section Received

variable [DecidableEq ρ] {fromSlice : Bytes → Option Json} {feed : Feed LogEntry β}
  {chunks : List Chunk} {f f' : LogFeed ρ β}

/-- The invariant: what was sent to the channel, with the entries that are still to be read, are the
entries of the stream. -/
structure Inv (fromSlice : Bytes → Option Json) (feed : Feed LogEntry β) (chunks : List Chunk)
    (f : LogFeed ρ β) : Prop where
  relay : Relay.Run feed .new f.relay
  entries : f.relay.published ++ entriesOf fromSlice (stream f.unread)
    = entriesOf fromSlice (stream chunks)

theorem Inv.new : Inv fromSlice feed chunks (new chunks : LogFeed ρ β) where
  relay := .refl
  entries := rfl

theorem Step.inv (hstep : Step fromSlice feed f f') (h : Inv fromSlice feed chunks f) :
    Inv fromSlice feed chunks f' := by
  cases hstep with
  | @line full buf rest hopen hread =>
      refine ⟨h.relay.trans (run_follow full buf f.relay), ?_⟩
      dsimp only
      rw [published_follow, List.append_assoc, ← entriesOf_of_readLineCapped hread, h.entries]
  | eof hopen hread => exact ⟨h.relay, h.entries⟩
  | fail => exact ⟨h.relay, h.entries⟩
  | pump hpump hpub =>
      refine ⟨h.relay.tail hpump, ?_⟩
      dsimp only
      rw [hpub, h.entries]

theorem Run.inv (hrun : Run fromSlice feed (new chunks) f) : Inv fromSlice feed chunks f := by
  induction hrun with
  | refl => exact .new
  | tail _ hstep ih => exact hstep.inv ih

/-- **What a receiver sees of the journal.**  However what `journalctl --follow` prints is divided
into pieces, and whatever the pump and the receivers do in between: the entries that are sent to the
pump are those of the lines of the stream, one for each line that is read whole, has at most 1 MiB
and parses, in the order of the lines, from the first one on; all of them when the stream was read
to its end.  What a receiver of `server.logs` was given is some of them, in the same order and each
at most once. -/
theorem log_events {n : Nat} {payload : LogEntry → β}
    (hrun : Run fromSlice (logsFeed n payload) (new chunks) f) (k : ρ) :
    f.relay.published <+: entriesOf fromSlice (stream chunks) ∧
      (stream f.unread = [] → f.relay.published = entriesOf fromSlice (stream chunks)) ∧
      ∃ heard : List LogEntry, f.relay.received k = heard.map payload ∧
        heard.Sublist (entriesOf fromSlice (stream chunks)) := by
  have h := hrun.inv
  have hpre : f.relay.published <+: entriesOf fromSlice (stream chunks) := ⟨_, h.entries⟩
  refine ⟨hpre, fun hnil ↦ ?_, ?_⟩
  · rw [← h.entries, hnil]
    exact (List.append_nil _).symm
  · obtain ⟨heard, hsub, heq⟩ := List.sublist_map_iff.mp (Relay.received_sublist h.relay k)
    exact ⟨heard, heq, hsub.trans hpre.sublist⟩

end Received

/-- The first bytes of a line, and the others with the newline. -/
def splitLine : List Chunk :=
  [⟨(cursorLine "s=1").line.take 5, by decide +kernel⟩,
    ⟨(cursorLine "s=1").line.drop 5 ++ [10], by decide +kernel⟩]

/-- A line that comes in two pieces is one entry. -/
theorem log_events_split : ∃ f : LogFeed Unit LogEntry,
    f.relay.published = [(cursorLine "s=1").entry] ∧
      f.relay.published <+: entriesOf readSlice (stream splitLine) ∧
      f.relay.published = entriesOf readSlice (stream splitLine) := by
  have hstream : stream splitLine = (cursorLine "s=1").line ++ 10 :: [] := by
    show (cursorLine "s=1").line.take 5 ++ ((cursorLine "s=1").line.drop 5 ++ [10] ++ []) = _
    rw [List.append_nil, ← List.append_assoc, List.take_append_drop]
  obtain ⟨rest, hrest, hread⟩ :=
    @readLineCapped_newline maxFollowLineBytes _ _ _ (by decide +kernel) hstream
  have hrun : Run readSlice (logsFeed 1 id) (new splitLine : LogFeed Unit LogEntry) _ :=
    (Relation.ReflTransGen.single (.pump (.start rfl) rfl)).tail (.line rfl hread)
  obtain ⟨hpre, hall, -⟩ := log_events hrun ()
  refine ⟨_, ?_, hpre, hall hrest⟩
  have hlen : (cursorLine "s=1").line.length ≤ maxFollowLineBytes := by decide +kernel
  dsimp only
  rw [published_follow]
  simp only [cappedLine, decide_eq_true hlen, List.take_of_length_le hlen, entryOf, if_true,
    parseJournalLine_cursorLine]
  rfl

end LogFeed

end Vaiexia.Events
