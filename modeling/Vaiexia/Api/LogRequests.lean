import Vaiexia.Api.Server
import Vaiexia.Backend.Logs
import Vaiexia.Lib.GetOpt

/-!
# What a log query asks of journalctl

`server.logs.query` runs `journalctl` with words that it makes of what the caller has sent: the name
of a unit, two times, a limit and a cursor.  journalctl reads its words as `getopt_long` does, and
of its options only the documented ones that `build_argv` uses are assumed (`Documented`).

`logs_query_asked` says that a caller can make it do nothing but answer the query: no word is read
as another option, as a match or as the name of a file, and the words are read back as the query.
-/

namespace Vaiexia.Api

open Vaiexia.Lib Vaiexia.Backend
open Vaiexia.Lib.GetOpt (Options CommandLine Gives)

/-! ## Times -/

/-- Zeros in front of a number. -/
theorem parseUnsigned_zeros {n bound : Nat} (h : n < bound) (k : Nat) :
    Text.parseUnsigned bound (List.replicate k '0' ++ Nat.toDigits 10 n) = some n := by
  have hdigit : ∀ c ∈ List.replicate k '0' ++ Nat.toDigits 10 n, c.isDigit = true := by
    intro c hc
    rcases List.mem_append.mp hc with hc | hc
    · rw [List.eq_of_mem_replicate hc]
      rfl
    · exact Nat.isDigit_of_mem_toDigits (by decide) (by decide) hc
  have hplus : ∀ rest, List.replicate k '0' ++ Nat.toDigits 10 n ≠ '+' :: rest := by
    intro rest heq
    have hfirst := hdigit '+' (heq ▸ List.mem_cons_self)
    revert hfirst
    decide
  have hempty : (List.replicate k '0' ++ Nat.toDigits 10 n).isEmpty = false :=
    List.isEmpty_eq_false_iff.mpr (List.append_ne_nil_of_right_ne_nil _ Nat.toDigits_ne_nil)
  have hall : (List.replicate k '0' ++ Nat.toDigits 10 n).all Char.isDigit = true :=
    List.all_eq_true.mpr hdigit
  have hvalue : Nat.ofDigitChars 10 (List.replicate k '0' ++ Nat.toDigits 10 n) 0 = n := by
    rw [Nat.ofDigitChars_append, Nat.ofDigitChars_replicate_zero, Nat.mul_zero,
      Nat.ofDigitChars_ten_toDigits]
  unfold Text.parseUnsigned
  split
  · rename_i rest heq
    exact absurd heq (hplus rest)
  · dsimp only
    rw [hempty, hall, hvalue, if_pos h]
    rfl

/-- Seconds and a fraction of six digits. -/
def readSeconds (secs fraction : List Char) : Option UInt64 :=
  if fraction.length = 6 then
    match Text.parseUnsigned (2 ^ 64) secs, Text.parseUnsigned 1000000 fraction with
    | some secs, some micros => some (.ofNat (secs * 1000000 + micros))
    | _, _ => none
  else none

/-- A time as journalctl reads it: an at sign and the seconds of the epoch, with a fraction. -/
def readAt (text : String) : Option UInt64 :=
  match text.toList with
  | '@' :: cs =>
      match Text.splitOnce '.' cs with
      | (secs, some fraction) => readSeconds secs fraction
      | (_, none) => none
  | _ => none

theorem length_sixDigits {n : Nat} (h : n < 1000000) : (sixDigits n).length = 6 := by
  have hlen : (Nat.toDigits 10 n).length ≤ 6 :=
    (Nat.length_toDigits_le_iff (by decide) (by decide)).mpr (by omega)
  rw [sixDigits, List.length_append, List.length_replicate]
  omega

/-- **A time is read back.** -/
theorem readAt_atSeconds (us : UInt64) : readAt (atSeconds us) = some us := by
  have hlt := us.toNat_lt
  have hsecs := Text.parseUnsigned_toDigits (show us.toNat / 1000000 < 2 ^ 64 by omega)
  have hmicros : Text.parseUnsigned 1000000 (sixDigits (us.toNat % 1000000)) =
      some (us.toNat % 1000000) := parseUnsigned_zeros (Nat.mod_lt _ (by decide)) _
  have hlen := length_sixDigits (Nat.mod_lt us.toNat (by decide : 0 < 1000000))
  have hdot : '.' ∉ Nat.toDigits 10 (us.toNat / 1000000) := by
    intro hmem
    have hdigit := Nat.isDigit_of_mem_toDigits (by decide) (by decide) hmem
    revert hdigit
    decide
  have hsum : us.toNat / 1000000 * 1000000 + us.toNat % 1000000 = us.toNat :=
    Nat.div_add_mod' _ _
  have htext : (atSeconds us).toList = '@' :: (Nat.toDigits 10 (us.toNat / 1000000) ++
      '.' :: sixDigits (us.toNat % 1000000)) := by
    rw [atSeconds, String.toList_ofList, List.cons_append]
  have hread : readSeconds (Nat.toDigits 10 (us.toNat / 1000000))
      (sixDigits (us.toNat % 1000000)) = some us := by
    rw [readSeconds, if_pos hlen, hsecs, hmicros]
    dsimp only
    rw [hsum, UInt64.ofNat_toNat]
  unfold readAt
  rw [htext]
  simp only [Text.splitOnce_append _ hdot]
  exact hread

/-! ## The options of journalctl -/

/-- The options of journalctl. -/
inductive JournalOption where
  | output | noPager | unit | since | «until» | lines | afterCursor
  | other (name : String)
deriving DecidableEq

/-- What is assumed of them: those that are used are there, and the number of lines may be the word
after `-n`. -/
structure Documented (o : Options JournalOption) : Prop where
  output : o.short 'o' = some (.output, .argument)
  noPager : o.long "no-pager" = some (.noPager, .nothing)
  unit : o.short 'u' = some (.unit, .argument)
  since : o.long "since" = some (.since, .argument)
  «until» : o.long "until" = some (.until, .argument)
  lines : ∃ accepts, o.short 'n' = some (.lines, .perhaps accepts) ∧
    ∀ n : UInt32, accepts (decimal n.toNat) = true
  afterCursor : o.long "after-cursor" = some (.afterCursor, .argument)

/-- What an option asks for, with an output that can be parsed; nothing for any other option. -/
def applyOption (q : LogQuery) : JournalOption × Option String → Option LogQuery
  | (.output, some "json") => some q
  | (.noPager, none) => some q
  | (.unit, some unit) => some { q with unit := some unit }
  | (.since, some text) => (readAt text).map fun us ↦ { q with sinceUs := some us }
  | (.until, some text) => (readAt text).map fun us ↦ { q with untilUs := some us }
  | (.lines, some text) =>
      (Text.parseUnsigned (2 ^ 32) text.toList).map fun n ↦ { q with limit := .ofNat n }
  | (.afterCursor, some cursor) => some { q with cursor := some cursor }
  | _ => none

/-- The query that a command line asks for, if it asks for nothing else. -/
def asked (line : CommandLine JournalOption) : Option LogQuery :=
  if line.operands = [] then line.options.foldlM applyOption ⟨none, none, none, 0, none⟩
  else none

/-- The options of a query. -/
def optionsOf (q : LogQuery) : List (JournalOption × Option String) :=
  [(.output, some "json"), (.noPager, none)] ++
    ((q.unit.map fun unit ↦ (.unit, some unit)).toList ++
      (q.sinceUs.map fun us ↦ (.since, some (atSeconds us))).toList ++
      (q.untilUs.map fun us ↦ (.until, some (atSeconds us))).toList) ++
    (if 0 < q.limit then [(.lines, some (decimal q.limit.toNat))] else []) ++
    (q.cursor.map fun cursor ↦ (.afterCursor, some cursor)).toList

section

variable {o : Options JournalOption}

/-- **The words of a query** were written for its options. -/
theorem gives_buildArgv (ho : Documented o) (q : LogQuery) :
    Gives o (buildArgv q).tail (optionsOf q) := by
  have hargument : GetOpt.Takes.argument ≠ .nothing := fun heq ↦ by cases heq
  have houtput : GetOpt.readWord o "-o" = some (.options [] (some (.output, .argument))) :=
    GetOpt.readWord_letter rfl (by decide) ho.output hargument
  have hpager : GetOpt.readWord o "--no-pager" = some (.options [(.noPager, none)] none) :=
    GetOpt.readWord_flag rfl (by decide) (by decide) ho.noPager
  have hunit : GetOpt.readWord o "-u" = some (.options [] (some (.unit, .argument))) :=
    GetOpt.readWord_letter rfl (by decide) ho.unit hargument
  have hsince : GetOpt.readWord o "--since" = some (.options [] (some (.since, .argument))) :=
    GetOpt.readWord_name rfl (by decide) (by decide) ho.since hargument
  have huntil : GetOpt.readWord o "--until" = some (.options [] (some (.until, .argument))) :=
    GetOpt.readWord_name rfl (by decide) (by decide) ho.until hargument
  have hcursor : GetOpt.readWord o "--after-cursor" =
      some (.options [] (some (.afterCursor, .argument))) :=
    GetOpt.readWord_name rfl (by decide) (by decide) ho.afterCursor hargument
  obtain ⟨accepts, hlines, haccepts⟩ := ho.lines
  have hlimit : GetOpt.readWord o "-n" =
      some (.options [] (some (.lines, .perhaps accepts))) :=
    GetOpt.readWord_letter rfl (by decide) hlines fun heq ↦ by cases heq
  have hfixed : Gives o ["-o", "json", "--no-pager"]
      [(.output, some "json"), (.noPager, none)] := .argument houtput _ (.flag hpager .nil)
  refine ((hfixed.append (((?_ : Gives o _ _).append ?_).append ?_)).append ?_).append ?_
  · cases q.unit with
    | none => exact .nil
    | some unit => exact .argument hunit unit .nil
  · cases q.sinceUs with
    | none => exact .nil
    | some us => exact .argument hsince (atSeconds us) .nil
  · cases q.untilUs with
    | none => exact .nil
    | some us => exact .argument huntil (atSeconds us) .nil
  · by_cases hpos : 0 < q.limit
    · rw [if_pos hpos, if_pos hpos]
      exact .accepted hlimit (haccepts q.limit) .nil
    · rw [if_neg hpos, if_neg hpos]
      exact .nil
  · cases q.cursor with
    | none => exact .nil
    | some cursor => exact .argument hcursor cursor .nil

theorem applied_append {q q' q'' : LogQuery}
    {options options' : List (JournalOption × Option String)}
    (h : options.foldlM applyOption q = some q') (h' : options'.foldlM applyOption q' = some q'') :
    (options ++ options').foldlM applyOption q = some q'' := by
  rw [List.foldlM_append, h]
  exact h'

/-- **The options of a query** ask for the query. -/
theorem asked_optionsOf (q : LogQuery) : asked ⟨optionsOf q, []⟩ = some q := by
  obtain ⟨unit, sinceUs, untilUs, limit, cursor⟩ := q
  have hunit : List.foldlM applyOption ⟨none, none, none, 0, none⟩
      (unit.map fun unit ↦ (.unit, some unit)).toList = some ⟨unit, none, none, 0, none⟩ := by
    cases unit with
    | none | some unit => rfl
  have hsince : List.foldlM applyOption ⟨unit, none, none, 0, none⟩
      (sinceUs.map fun us ↦ (.since, some (atSeconds us))).toList =
        some ⟨unit, sinceUs, none, 0, none⟩ := by
    cases sinceUs with
    | none => rfl
    | some us =>
        show ((readAt (atSeconds us)).map _).bind some = _
        rw [readAt_atSeconds]
        rfl
  have huntil : List.foldlM applyOption ⟨unit, sinceUs, none, 0, none⟩
      (untilUs.map fun us ↦ (.until, some (atSeconds us))).toList =
        some ⟨unit, sinceUs, untilUs, 0, none⟩ := by
    cases untilUs with
    | none => rfl
    | some us =>
        show ((readAt (atSeconds us)).map _).bind some = _
        rw [readAt_atSeconds]
        rfl
  have hlines : List.foldlM applyOption ⟨unit, sinceUs, untilUs, 0, none⟩
      (if 0 < limit then [(.lines, some (decimal limit.toNat))] else []) =
        some ⟨unit, sinceUs, untilUs, limit, none⟩ := by
    split
    · show ((Text.parseUnsigned (2 ^ 32) (decimal limit.toNat).toList).map _).bind some = _
      rw [decimal, String.toList_ofList, Text.parseUnsigned_toDigits limit.toNat_lt,
        Option.map_some, UInt32.ofNat_toNat]
      rfl
    · rename_i hzero
      have hlimit : limit = 0 := UInt32.le_zero_iff.mp (UInt32.not_lt.mp hzero)
      rw [hlimit]
      rfl
  have hcursor : List.foldlM applyOption ⟨unit, sinceUs, untilUs, limit, none⟩
      (cursor.map fun cursor ↦ (.afterCursor, some cursor)).toList =
        some ⟨unit, sinceUs, untilUs, limit, cursor⟩ := by
    cases cursor with
    | none | some cursor => rfl
  have hfixed : List.foldlM applyOption ⟨none, none, none, 0, none⟩
      [(.output, some "json"), (.noPager, none)] = some ⟨none, none, none, 0, none⟩ := rfl
  rw [asked, if_pos rfl, optionsOf]
  exact applied_append (applied_append (applied_append hfixed
    (applied_append (applied_append hunit hsince) huntil)) hlines) hcursor

/-! ## Requests -/

/-- The words ask for what the caller asked for, of a unit that is no pattern and within bounds, and
for nothing else. -/
structure Asks (o : Options JournalOption) (p : LogsQueryParams) (args : List String) : Prop where
  asked : (GetOpt.parse o args).bind asked = some ⟨p.unit, p.since, p.until, p.limit, p.cursor⟩
  unit : ∀ unit ∈ p.unit, ∀ c ∈ unit.toList, c ∉ ['*', '?', '[']
  limit : 0 < p.limit ∧ p.limit ≤ maxLimit

theorem not_pattern_of_isSystemdUnitName {unit : String} (h : isSystemdUnitName unit = true) :
    ∀ c ∈ unit.toList, c ∉ ['*', '?', '['] := by
  intro c hc hpattern
  rw [isSystemdUnitName] at h
  simp only [Bool.and_eq_true, List.all_eq_true] at h
  have hchar := h.1.2 c hc
  rcases List.mem_cons.mp hpattern with rfl | hpattern
  · revert hchar
    decide
  · rcases List.mem_cons.mp hpattern with rfl | hpattern
    · revert hchar
      decide
    · obtain rfl := List.mem_singleton.mp hpattern
      revert hchar
      decide

/-- A request that comes to the journal has passed the checks. -/
theorem logsQueryResult_checks (be : SystemBackend) (p : LogsQueryParams) :
    (∃ e, ∀ logs, logsQueryResult { be with logs := some logs } p = .error e) ∨
      (0 < p.limit ∧ p.limit ≤ maxLimit) := by
  unfold logsQueryResult
  by_cases hmax : maxLimit < p.limit
  · exact .inl ⟨_, fun _ ↦ if_pos hmax⟩
  by_cases hzero : p.limit = 0
  · exact .inl ⟨_, fun _ ↦ (if_neg hmax).trans (if_pos hzero)⟩
  · exact .inr ⟨UInt32.pos_iff_ne_zero.mpr hzero, UInt32.not_lt.mp hmax⟩

/-- **What a log query asks of journalctl**: the answer comes of nothing else than what journalctl
says when it is asked for what the caller asked for, whatever words the caller has sent. -/
theorem logs_query_asked (ho : Documented o) (fromSlice : Bytes → Option Json) (be : SystemBackend)
    (p : LogsQueryParams) {spawn spawn' : String → List String → Option ChildRun}
    (h : ∀ args, Asks o p args →
      spawn "/usr/bin/journalctl" args = spawn' "/usr/bin/journalctl" args) :
    logsQueryResult { be with logs := some ⟨journaldQuery fromSlice spawn⟩ } p =
      logsQueryResult { be with logs := some ⟨journaldQuery fromSlice spawn'⟩ } p := by
  rcases logsQueryResult_checks be p with ⟨e, he⟩ | hlimit
  · rw [he, he]
  have hquery : journaldQuery fromSlice spawn ⟨p.unit, p.since, p.until, p.limit, p.cursor⟩ =
      journaldQuery fromSlice spawn' ⟨p.unit, p.since, p.until, p.limit, p.cursor⟩ := by
    generalize hq : (⟨p.unit, p.since, p.until, p.limit, p.cursor⟩ : LogQuery) = q
    by_cases hunit : (q.unit.any fun unit ↦ !isSystemdUnitName unit) = true
    · rw [journaldQuery, journaldQuery, if_pos hunit, if_pos hunit]
    have hasks : Asks o p (buildArgv q).tail := by
      refine ⟨?_, fun unit hmem ↦ ?_, hlimit⟩
      · rw [GetOpt.parse_of_gives (gives_buildArgv ho q), hq]
        exact asked_optionsOf q
      · have hmem' : q.unit = some unit := by
          rw [← hq]
          exact hmem
        rw [hmem', Option.any_some, Bool.not_eq_true', Bool.not_eq_false] at hunit
        exact not_pattern_of_isSystemdUnitName hunit
    have hargv : buildArgv q = "/usr/bin/journalctl" :: (buildArgv q).tail := rfl
    rw [journaldQuery, journaldQuery, if_neg hunit, if_neg hunit, hargv]
    dsimp only
    rw [h _ hasks]
  unfold logsQueryResult
  dsimp only
  rw [hquery]

end

/-- Some of the options of journalctl. -/
def journalOptions : Options JournalOption where
  short
    | 'o' => some (.output, .argument)
    | 'u' => some (.unit, .argument)
    | 'n' => some (.lines, .perhaps fun word ↦
        (Text.parseUnsigned (2 ^ 32) word.toList).isSome || word == "all")
    | 'f' => some (.other "follow", .nothing)
    | 'D' => some (.other "directory", .argument)
    | _ => none
  long
    | "no-pager" => some (.noPager, .nothing)
    | "since" => some (.since, .argument)
    | "until" => some (.until, .argument)
    | "after-cursor" => some (.afterCursor, .argument)
    | "rotate" => some (.other "rotate", .nothing)
    | "vacuum-time" => some (.other "vacuum-time", .argument)
    | _ => none

theorem documented_journalOptions : Documented journalOptions where
  output := rfl
  noPager := rfl
  unit := rfl
  since := rfl
  «until» := rfl
  lines := by
    refine ⟨_, rfl, fun n ↦ ?_⟩
    rw [decimal, String.toList_ofList, Text.parseUnsigned_toDigits n.toNat_lt]
    rfl
  afterCursor := rfl

/-- A journalctl that answers with one entry. -/
def answers (_program : String) (_args : List String) : Option ChildRun :=
  some ⟨printed [cursorLine "s=1"], true, true⟩

/-- The same, but only when it is asked for nothing but a query. -/
def answersQueries (program : String) (args : List String) : Option ChildRun :=
  if ((GetOpt.parse journalOptions args).bind asked).isSome then answers program args else none

/-- A host with logs. -/
def logsHost : SystemBackend where
  host := ⟨.error .unavailable⟩
  services := none
  packages := none
  logs := none
  caps := ⟨false, false, false, true⟩

/-- A cursor that looks like an option. -/
theorem logs_query_asked_rotate :
    logsQueryResult { logsHost with logs := some ⟨journaldQuery readSlice answers⟩ }
        ⟨some "-f.service", none, some 1, 5, some "--rotate"⟩ =
      logsQueryResult { logsHost with logs := some ⟨journaldQuery readSlice answersQueries⟩ }
        ⟨some "-f.service", none, some 1, 5, some "--rotate"⟩ := by
  refine logs_query_asked documented_journalOptions readSlice logsHost _ fun args h ↦ ?_
  rw [answersQueries, h.asked]
  rfl

end Vaiexia.Api
