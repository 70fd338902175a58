import Mathlib.Data.List.Infix
import Vaiexia.Api.Server

/-!
# The records of package mutations

`run_package_mutation` writes the evidence of a request in two parts: its handler emits a `mutation`
record, and the job that it may start emits a `job` record.  In `Mutations` any number of requests
are served, and their jobs run, in any interleaving.  A handler decides in the critical section of
`try_start` and emits later, and a job emits before its terminal status is stored.

What a request finds is part of it: the answers of the backend, the readings of the clocks and the
snapshots that are looked into.  A record in the log has the request that it is about, which is not
part of the program.
-/

namespace Vaiexia.Api

open Vaiexia.Lib Vaiexia.Audit Vaiexia.Auth Vaiexia.Backend Vaiexia.Privd

/-! ## Job ids -/

/-- The characters of a UUID. -/
def isUuidChar (c : Char) : Bool := ('0' ≤ c && c ≤ '9') || ('a' ≤ c && c ≤ 'f') || c == '-'

/-- `Uuid::new_v4().to_string()`. -/
structure JobId where
  text : String
  length_eq : text.toList.length = 36
  chars : ∀ c ∈ text.toList, isUuidChar c = true
deriving DecidableEq

/-- The record names the job: its detail ends with the id. -/
def namesJob (id : JobId) (ev : AuditEvent) : Bool :=
  ev.detail.any fun d ↦ decide ("job=".toList ++ id.text.toList <:+ d.text.toList)

/-- The detail of the record contains the id. -/
def mentionsJob (id : JobId) (ev : AuditEvent) : Bool :=
  ev.detail.any fun d ↦ decide (id.text.toList <:+: d.text.toList)

/-! ## Requests -/

/-- A request to install or remove a package, with what its handler and its job find. -/
structure PackageRequest (core : ScopeSets) where
  verb : PackageVerb
  name : String
  subject : Subject core
  backend : SystemBackend
  jobSnap : IdentitySnapshot
  eventSnap : IdentitySnapshot
  clock : EventClock
  jobClock : EventClock

/-- What the handler decides when it finds the registry like this. -/
def PackageRequest.decide {core : ScopeSets} (req : PackageRequest core) (id : JobId)
    (inner : RegistryInner) :
    RegistryInner × Option PackageJob × List AuditEvent × Except Diagnostic JobStartDto :=
  runPackageMutation req.backend req.clock id.text req.jobSnap req.eventSnap req.subject req.verb
    req.name inner

/-- How far the handler of a request has come. -/
inductive HandlerPhase where
  | waiting
  | decided (events : List AuditEvent) (result : Except Diagnostic JobStartDto)
  /-- It has emitted the events. -/
  | answered (events : List AuditEvent) (result : Except Diagnostic JobStartDto)

/-- How far the job of a request has come. -/
inductive TaskPhase where
  /-- There is none. -/
  | absent
  | running (job : PackageJob)
  /-- The future has emitted its event and returned. -/
  | ended (event : AuditEvent) (result : Except Diagnostic Unit)
  | stored (event : AuditEvent)

/-- What the handler has emitted. -/
def HandlerPhase.emitted : HandlerPhase → List AuditEvent
  | answered events _ => events
  | _ => []

/-- What the job has emitted. -/
def TaskPhase.emitted : TaskPhase → List AuditEvent
  | ended event _ | stored event => [event]
  | _ => []

/-- The task of a request that has just been decided. -/
def TaskPhase.ofJob : Option PackageJob → TaskPhase
  | some job => running job
  | none => absent

/-- A daemon that serves package mutations. -/
structure Mutations (ι : Type) where
  inner : RegistryInner
  handler : ι → HandlerPhase
  task : ι → TaskPhase
  log : List (ι × AuditEvent)

namespace Mutations

variable {ι : Type} {core : ScopeSets}

/-- Before the first request, with a registry in any state. -/
def start (inner : RegistryInner) : Mutations ι where
  inner := inner
  handler := fun _ ↦ .waiting
  task := fun _ ↦ .absent
  log := []

/-- The request has started a job. -/
def Started (s : Mutations ι) (i : ι) : Prop := s.task i ≠ .absent

/-- The job of the request is complete. -/
def Completed (s : Mutations ι) (i : ι) : Prop :=
  (∃ event result, s.task i = .ended event result) ∨ ∃ event, s.task i = .stored event

/-- The handler of the request has returned. -/
def Answered (s : Mutations ι) (i : ι) : Prop :=
  ∃ events result, s.handler i = .answered events result

variable [DecidableEq ι]

/-- The records of a request of one kind. -/
def records (i : ι) (kind : AuditKind) (log : List (ι × AuditEvent)) : List (ι × AuditEvent) :=
  log.filter fun e ↦ e.1 = i ∧ e.2.kind = kind

/-- One step for a request. -/
inductive Step (reqs : ι → PackageRequest core) (ids : ι → JobId) (i : ι) :
    Mutations ι → Mutations ι → Prop
  | decide {s : Mutations ι} {inner : RegistryInner} {job : Option PackageJob}
      {events : List AuditEvent} {result : Except Diagnostic JobStartDto}
      (hi : s.handler i = .waiting)
      (hdecide : (reqs i).decide (ids i) s.inner = (inner, job, events, result)) :
      Step reqs ids i s { s with
        inner := inner
        handler := Function.update s.handler i (.decided events result)
        task := Function.update s.task i (.ofJob job) }
  | answer {s : Mutations ι} {events : List AuditEvent} {result : Except Diagnostic JobStartDto}
      (hi : s.handler i = .decided events result) :
      Step reqs ids i s { s with
        handler := Function.update s.handler i (.answered events result)
        log := s.log ++ events.map (i, ·) }
  | work {s : Mutations ι} {job : PackageJob} {mgr : PackageManager}
      (hi : s.task i = .running job) (hmgr : (reqs i).backend.packages = some mgr) :
      Step reqs ids i s { s with
        task := Function.update s.task i
          (.ended (job.run mgr (reqs i).jobClock).1 (job.run mgr (reqs i).jobClock).2)
        log := s.log ++ [(i, (job.run mgr (reqs i).jobClock).1)] }
  | store {s : Mutations ι} {event : AuditEvent} {result : Except Diagnostic Unit}
      (hi : s.task i = .ended event result) :
      Step reqs ids i s { s with
        inner := s.inner.storeTerminal (terminalStatus (ids i).text result)
        task := Function.update s.task i (.stored event) }

/-- Any interleaving of handlers and jobs. -/
abbrev Run (reqs : ι → PackageRequest core) (ids : ι → JobId) : Mutations ι → Mutations ι → Prop :=
  Relation.ReflTransGen fun s s' ↦ ∃ i, Step reqs ids i s s'

end Mutations

/-! ## The texts of the records -/

/-- No character of a package name is a control character. -/
theorem isControl_of_isNameChar {c : Char} (h : isNameChar c = true) : isControl c = false := by
  have hrange : 0x20 ≤ c.toNat ∧ c.toNat < 0x7F := by
    simp only [isNameChar, Bool.or_eq_true, Bool.and_eq_true, decide_eq_true_eq,
      beq_iff_eq] at h
    rcases h with ((((⟨hlo, hhi⟩ | ⟨hlo, hhi⟩) | rfl) | rfl) | rfl) | rfl
    · exact ⟨le_trans (by decide) (show 'a'.toNat ≤ c.toNat from hlo),
        lt_of_le_of_lt (show c.toNat ≤ 'z'.toNat from hhi) (by decide)⟩
    · exact ⟨le_trans (by decide) (show '0'.toNat ≤ c.toNat from hlo),
        lt_of_le_of_lt (show c.toNat ≤ '9'.toNat from hhi) (by decide)⟩
    all_goals decide
  simp only [isControl, Bool.or_eq_false_iff, Bool.and_eq_false_iff, decide_eq_false_iff_not]
  exact ⟨by omega, .inl (by omega)⟩

/-- The characters of an id are neither control characters nor those that separate the parts of a
detail. -/
theorem isControl_of_isUuidChar {c : Char} (h : isUuidChar c = true) :
    isControl c = false ∧ c ≠ '=' ∧ c ≠ ' ' := by
  have hname : isNameChar c = true := by
    simp only [isUuidChar, isNameChar, Bool.or_eq_true, Bool.and_eq_true, decide_eq_true_eq,
      beq_iff_eq] at h ⊢
    rcases h with (h | ⟨hlo, hhi⟩) | rfl
    · exact .inl (.inl (.inl (.inl (.inr h))))
    · exact .inl (.inl (.inl (.inl (.inl ⟨hlo,
        Nat.le_trans (show c.toNat ≤ 'f'.toNat from hhi) (by decide)⟩))))
    · exact .inr rfl
  refine ⟨isControl_of_isNameChar hname, ?_, ?_⟩
  all_goals
    rintro rfl
    revert h
    decide

/-- The detail of a package record is not cut or cleaned. -/
theorem detail_text (name : PackageName) (rest : String) (hlen : rest.toList.length ≤ 128)
    (hclean : (rest.toList.all fun c ↦ !isControl c) = true) :
    (sanitize ("pkg=" ++ name.text ++ rest)).text = "pkg=" ++ name.text ++ rest := by
  have hname : ∀ c ∈ name.text.toList, isNameChar c = true :=
    List.all_eq_true.mp name.grammar.all
  apply sanitize_text
  · have hbytes := name.grammar.byteLen_le
    have hle := Utf8.length_le_byteLen name.text.toList
    simp only [String.toList_append, List.length_append, maxFieldLen]
    have hpkg : "pkg=".toList.length = 4 := by decide
    omega
  · simp only [String.toList_append, List.all_append, hclean, Bool.and_true, Bool.and_eq_true]
    refine ⟨by decide, List.all_eq_true.mpr fun c hc ↦ ?_⟩
    rw [isControl_of_isNameChar (hname c hc)]
    rfl

/-- A text whose last id-long part has an equals sign does not end with an id. -/
theorem not_suffix_of_eq {id : JobId} {before word : List Char} (hword : word.length < 36) :
    ¬ "job=".toList ++ id.text.toList <:+ before ++ '=' :: word := by
  rintro ⟨start, h⟩
  rw [← List.append_assoc] at h
  have hmem : '=' ∈ id.text.toList := by
    rcases List.append_eq_append_iff.mp h with ⟨more, -, hid⟩ | ⟨more, -, hid⟩
    · rw [hid]
      simp
    · -- the id is as long as it can be here
      have hlen : word.length + 1 = more.length + id.text.toList.length := by
        rw [← List.length_cons (a := '='), hid, List.length_append]
      rw [id.length_eq] at hlen
      obtain rfl : more = [] := List.eq_nil_of_length_eq_zero (by omega)
      rw [List.nil_append] at hid
      exact hid ▸ List.mem_cons_self
  exact (isControl_of_isUuidChar (id.chars _ hmem)).2.1 rfl

/-- A text that ends with an id ends with no other one. -/
theorem suffix_job_iff {id id' : JobId} {before : List Char} :
    "job=".toList ++ id'.text.toList <:+ before ++ ("job=".toList ++ id.text.toList) ↔
      id' = id := by
  constructor
  · rintro ⟨start, h⟩
    rw [← List.append_assoc, ← List.append_assoc] at h
    have htext := List.append_inj_right' h (by rw [id.length_eq, id'.length_eq])
    cases id
    cases id'
    simp only [String.toList_inj] at htext
    subst htext
    rfl
  · rintro rfl
    exact List.suffix_append _ _

/-! ## What a handler decides -/

section Decision

variable {core : ScopeSets} {req : PackageRequest core} {id : JobId} {inner : RegistryInner}

/-- The record of a request that starts no job. -/
structure Refusal (ev : AuditEvent) : Prop where
  kind : ev.kind = .mutation
  decision : ev.decision = .err
  names : ∀ id, namesJob id ev = false

/-- The record of a request that starts the job. -/
structure Acceptance (id : JobId) (ev : AuditEvent) : Prop where
  kind : ev.kind = .mutation
  decision : ev.decision = .ok
  names : ∀ id', namesJob id' ev = true ↔ id' = id

/-- The job of a request. -/
def PackageRequest.job (req : PackageRequest core) : PackageJob where
  verb := req.verb
  name := req.name
  subject := subjectLabel req.subject req.jobSnap
  capKeyId := capKeyId req.subject

/-- The event of a request. -/
def PackageRequest.event (req : PackageRequest core) (decision : AuditDecision) (detail : String) :
    AuditEvent :=
  (((subjectEvent req.clock.now req.eventSnap req.subject .mutation decision).withMethod
    req.verb.method).withDetail detail).withLatencyUs req.clock.latencyUs

theorem PackageRequest.event_kind (req : PackageRequest core) (decision : AuditDecision)
    (detail : String) : (req.event decision detail).kind = .mutation := by
  unfold event subjectEvent
  split <;> rfl

theorem PackageRequest.event_decision (req : PackageRequest core) (decision : AuditDecision)
    (detail : String) : (req.event decision detail).decision = decision := by
  unfold event subjectEvent
  split <;> rfl

/-- A detail that gives a reason names no job. -/
theorem Refusal.of_detail {detail : String} (before word : List Char)
    (hdetail : (sanitize detail).text.toList = before ++ '=' :: word) (hword : word.length < 36) :
    Refusal (req.event .err detail) where
  kind := req.event_kind _ _
  decision := req.event_decision _ _
  names := by
    intro id
    refine decide_eq_false ?_
    rw [hdetail]
    exact not_suffix_of_eq hword

/-- The detail of an accepted request names its job. -/
theorem Acceptance.of_name (name : PackageName) :
    Acceptance id (req.event .ok s!"pkg={name.text} outcome=accepted job={id.text}") where
  kind := req.event_kind _ _
  decision := req.event_decision _ _
  names := by
    intro id'
    have hclean : (id.text.toList.all fun c ↦ !isControl c) = true := by
      refine List.all_eq_true.mpr fun c hc ↦ ?_
      rw [(isControl_of_isUuidChar (id.chars c hc)).1]
      rfl
    have htext : (sanitize s!"pkg={name.text} outcome=accepted job={id.text}").text
        = "pkg=" ++ name.text ++ (" outcome=accepted job=" ++ id.text) := by
      have hrest := detail_text name (" outcome=accepted job=" ++ id.text)
        (by rw [String.toList_append, List.length_append, id.length_eq]; decide)
        (by rw [String.toList_append, List.all_append, hclean]; decide)
      rw [← String.append_assoc] at hrest
      rw [← String.append_assoc]
      exact hrest
    have hlist : (sanitize s!"pkg={name.text} outcome=accepted job={id.text}").text.toList
        = ("pkg=".toList ++ name.text.toList ++ " outcome=accepted ".toList)
          ++ ("job=".toList ++ id.text.toList) := by
      have hword : " outcome=accepted job=".toList =
          " outcome=accepted ".toList ++ "job=".toList := by decide
      rw [htext]
      simp only [String.toList_append, hword, List.append_assoc]
    refine decide_eq_true_iff.trans ?_
    rw [hlist]
    exact suffix_job_iff

/-- **A decision** either refuses the request and leaves the registry alone, or takes the free slot
for the job, and has one event. -/
theorem PackageRequest.decide_cases (req : PackageRequest core) (id : JobId)
    (inner : RegistryInner) :
    (∃ ev d, req.decide id inner = (inner, none, [ev], .error d) ∧ Refusal ev ∧
      (PackageName.parse req.name = none ∨ req.backend.packages = none ∨ inner.running ≠ none)) ∨
      ∃ ev, req.decide id inner
          = ({ inner with running := some id.text }, some req.job, [ev], .ok ⟨id.text⟩) ∧
        Acceptance id ev ∧ (PackageName.parse req.name).isSome ∧ req.backend.packages.isSome := by
  unfold PackageRequest.decide runPackageMutation parsePackageName
  cases hname : PackageName.parse req.name with
  | none =>
      refine .inl ⟨req.event .err "outcome=rejected reason=invalid_name", _, rfl, ?_, .inl rfl⟩
      exact .of_detail "outcome=rejected reason".toList "invalid_name".toList
        (by decide) (by decide)
  | some name =>
      have htext := PackageName.parse_eq_some hname
      cases hpkgs : req.backend.packages with
      | none =>
          refine .inl ⟨req.event .err s!"pkg={name.text} outcome=rejected reason=unsupported", _,
            rfl, ?_, .inr (.inl rfl)⟩
          refine .of_detail
            ("pkg=".toList ++ name.text.toList ++ " outcome=rejected reason".toList)
            "unsupported".toList ?_ (by decide)
          have hdetail := detail_text name " outcome=rejected reason=unsupported"
            (by decide) (by decide)
          have hword : " outcome=rejected reason=unsupported".toList =
              " outcome=rejected reason".toList ++ '=' :: "unsupported".toList := by decide
          refine (congrArg String.toList hdetail).trans ?_
          simp only [String.toList_append, hword, List.append_assoc]
      | some mgr =>
          cases hrunning : inner.running with
          | some other =>
              simp only [RegistryInner.tryStart, hrunning]
              refine .inl ⟨req.event .err s!"pkg={name.text} outcome=rejected reason=busy", _, rfl,
                ?_, .inr (.inr (Option.some_ne_none other))⟩
              refine .of_detail
                ("pkg=".toList ++ name.text.toList ++ " outcome=rejected reason".toList)
                "busy".toList ?_ (by decide)
              have hdetail := detail_text name " outcome=rejected reason=busy"
                (by decide) (by decide)
              have hword : " outcome=rejected reason=busy".toList =
                  " outcome=rejected reason".toList ++ '=' :: "busy".toList := by decide
              refine (congrArg String.toList hdetail).trans ?_
              simp only [String.toList_append, hword, List.append_assoc]
          | none =>
              simp only [RegistryInner.tryStart, hrunning]
              refine .inr ⟨req.event .ok s!"pkg={name.text} outcome=accepted job={id.text}", ?_,
                .of_name name, rfl, rfl⟩
              rw [htext]
              rfl

/-- The words for the outcome of a job. -/
def outcomeWords : List String :=
  ["ok", "timeout", "unavailable", "denied", "not_found", "invalid_name", "err"]

theorem backendOutcome_mem (e : BackendError) : backendOutcome e ∈ outcomeWords := by
  cases e <;> simp [backendOutcome, outcomeWords]

/-- **The record of a job** says whether the backend succeeded, in so many words. -/
theorem PackageJob.run_event (job : PackageJob) (mgr : PackageManager) (clock : EventClock) :
    (job.run mgr clock).1.kind = .job ∧
      ((job.run mgr clock).1.decision = .ok ↔ job.verb.call mgr job.name = .ok ()) ∧
      ∃ outcome ∈ outcomeWords,
        (job.run mgr clock).1.detail = some (sanitize s!"pkg={job.name} outcome={outcome}") := by
  unfold PackageJob.run
  rcases job.capKeyId with _ | k
  all_goals
    rcases job.verb.call mgr job.name with e | ⟨⟩
    · exact ⟨rfl, ⟨nofun, nofun⟩, backendOutcome e, backendOutcome_mem e, rfl⟩
    · exact ⟨rfl, ⟨fun _ ↦ rfl, fun _ ↦ rfl⟩, "ok", List.mem_cons_self, rfl⟩

/-- The record of a job contains an id only where the name of its package does. -/
theorem PackageJob.mentionsJob_iff {job : PackageJob} (mgr : PackageManager) (clock : EventClock)
    (hname : (PackageName.parse job.name).isSome) (id : JobId) :
    mentionsJob id (job.run mgr clock).1 = true ↔ id.text.toList <:+: job.name.toList := by
  obtain ⟨name, hname⟩ := Option.isSome_iff_exists.mp hname
  have hjob := PackageName.parse_eq_some hname
  obtain ⟨-, -, outcome, houtcome, hdetail⟩ := job.run_event mgr clock
  have hwords : ∀ word ∈ outcomeWords, word.toList.length ≤ 12 ∧
      (word.toList.all fun c ↦ !isControl c) = true := by decide
  obtain ⟨hlen, hclean⟩ := hwords outcome houtcome
  have htext : (sanitize s!"pkg={job.name} outcome={outcome}").text.toList
      = "pkg".toList ++ '=' :: (job.name.toList ++ ' ' ::
        ("outcome".toList ++ '=' :: outcome.toList)) := by
    have hrest := detail_text name (" outcome=" ++ outcome)
      (by
        rw [String.toList_append, List.length_append]
        have hword : " outcome=".toList.length = 9 := by decide
        omega)
      (by rw [String.toList_append, List.all_append, hclean]; decide)
    rw [hjob, ← String.append_assoc] at hrest
    refine (congrArg String.toList hrest).trans ?_
    simp only [String.toList_append, List.append_assoc]
    rfl
  unfold mentionsJob
  rw [hdetail]
  refine decide_eq_true_iff.trans ?_
  rw [htext]
  have hshort : ∀ l : List Char, l.length < 36 → ¬ id.text.toList <:+: l := by
    intro l hl hinfix
    have hle := hinfix.length_le
    rw [id.length_eq] at hle
    omega
  constructor
  · intro hinfix
    have hseparate : '=' ∉ id.text.toList ∧ ' ' ∉ id.text.toList :=
      ⟨fun h ↦ (isControl_of_isUuidChar (id.chars _ h)).2.1 rfl,
        fun h ↦ (isControl_of_isUuidChar (id.chars _ h)).2.2 rfl⟩
    rcases Text.infix_or_infix_of_notMem hseparate.1 hinfix with h | h
    · exact absurd h (hshort _ (by decide))
    · rcases Text.infix_or_infix_of_notMem hseparate.2 h with h | h
      · exact h
      · rcases Text.infix_or_infix_of_notMem hseparate.1 h with h | h
        · exact absurd h (hshort _ (by decide))
        · exact absurd h (hshort _ (by omega))
  · intro hinfix
    refine hinfix.trans ⟨"pkg=".toList, ' ' :: ("outcome".toList ++ '=' :: outcome.toList), ?_⟩
    simp only [List.append_assoc]
    rfl

end Decision

/-! ## The invariant -/

/-- How far the job is that a request has started. -/
inductive JobUnderway {core : ScopeSets} (req : PackageRequest core) : TaskPhase → Prop
  | running : JobUnderway req (.running req.job)
  | ended {mgr : PackageManager} (hmgr : req.backend.packages = some mgr) :
      JobUnderway req (.ended (req.job.run mgr req.jobClock).1 (req.job.run mgr req.jobClock).2)
  | stored {mgr : PackageManager} (hmgr : req.backend.packages = some mgr) :
      JobUnderway req (.stored (req.job.run mgr req.jobClock).1)

/-- What handler and job of a request are together. -/
inductive Consistent {core : ScopeSets} (req : PackageRequest core) (id : JobId) :
    HandlerPhase → TaskPhase → Prop
  | waiting : Consistent req id .waiting .absent
  | refused {h : HandlerPhase} {ev : AuditEvent} {d : Diagnostic} (hev : Refusal ev)
      (hh : h = .decided [ev] (.error d) ∨ h = .answered [ev] (.error d)) :
      Consistent req id h .absent
  | accepted {h : HandlerPhase} {t : TaskPhase} {ev : AuditEvent} (hev : Acceptance id ev)
      (hname : (PackageName.parse req.name).isSome) (hpackages : req.backend.packages.isSome)
      (hh : h = .decided [ev] (.ok ⟨id.text⟩) ∨ h = .answered [ev] (.ok ⟨id.text⟩))
      (ht : JobUnderway req t) : Consistent req id h t

/-- A decision is one event, about a mutation, and emitting it decides nothing else. -/
theorem Consistent.answered {core : ScopeSets} {req : PackageRequest core} {id : JobId}
    {events : List AuditEvent} {result : Except Diagnostic JobStartDto} {t : TaskPhase}
    (h : Consistent req id (.decided events result) t) :
    Consistent req id (.answered events result) t ∧
      ∃ ev, events = [ev] ∧ ev.kind = .mutation := by
  cases h with
  | refused hev hh =>
      rcases hh with hh | hh
      · obtain ⟨rfl, rfl⟩ := HandlerPhase.decided.inj hh
        exact ⟨.refused hev (.inr rfl), _, rfl, hev.kind⟩
      · cases hh
  | accepted hev hname hpackages hh ht =>
      rcases hh with hh | hh
      · obtain ⟨rfl, rfl⟩ := HandlerPhase.decided.inj hh
        exact ⟨.accepted hev hname hpackages (.inr rfl) ht, _, rfl, hev.kind⟩
      · cases hh

/-- A handler that has a job goes on whatever becomes of the job. -/
theorem Consistent.task {core : ScopeSets} {req : PackageRequest core} {id : JobId}
    {h : HandlerPhase} {t t' : TaskPhase} (hc : Consistent req id h t) (ht : t ≠ .absent)
    (ht' : JobUnderway req t → JobUnderway req t') : Consistent req id h t' := by
  cases hc with
  | waiting => exact absurd rfl ht
  | refused => exact absurd rfl ht
  | accepted hev hname hpackages hh hjob => exact .accepted hev hname hpackages hh (ht' hjob)

theorem Consistent.task_of_waiting {core : ScopeSets} {req : PackageRequest core} {id : JobId}
    {t : TaskPhase} (h : Consistent req id .waiting t) : t = .absent := by
  cases h with
  | waiting => rfl
  | refused => rfl
  | accepted hev hname hpackages hh ht => exact absurd hh nofun

theorem Consistent.job_of_running {core : ScopeSets} {req : PackageRequest core} {id : JobId}
    {h : HandlerPhase} {job : PackageJob} (hc : Consistent req id h (.running job)) :
    job = req.job ∧ req.backend.packages.isSome := by
  cases hc with
  | accepted hev hname hpackages hh ht =>
      cases ht
      exact ⟨rfl, hpackages⟩

namespace Mutations

section Accounting

variable {ι : Type} [DecidableEq ι] {core : ScopeSets} {reqs : ι → PackageRequest core}
  {ids : ι → JobId} {s s' : Mutations ι} {i : ι}

/-- One more record. -/
theorem records_concat (i j : ι) (kind : AuditKind) (log : List (ι × AuditEvent))
    (ev : AuditEvent) :
    records j kind (log ++ [(i, ev)])
      = if j = i ∧ ev.kind = kind then records j kind log ++ [(j, ev)] else records j kind log := by
  unfold records
  rw [List.filter_append]
  by_cases h : j = i ∧ ev.kind = kind
  · obtain ⟨rfl, rfl⟩ := h
    simp
  · have hnot : ¬ (i = j ∧ ev.kind = kind) := fun h' ↦ h ⟨h'.1.symm, h'.2⟩
    rw [if_neg h, List.filter_cons_of_neg (by simpa using hnot), List.filter_nil, List.append_nil]

/-- The invariant: the log has what handlers and jobs have emitted. -/
structure Inv (reqs : ι → PackageRequest core) (ids : ι → JobId) (s : Mutations ι) : Prop where
  consistent : ∀ i, Consistent (reqs i) (ids i) (s.handler i) (s.task i)
  mutations : ∀ i, records i .mutation s.log = (s.handler i).emitted.map (i, ·)
  jobs : ∀ i, records i .job s.log = (s.task i).emitted.map (i, ·)
  kinds : ∀ e ∈ s.log, e.2.kind = .mutation ∨ e.2.kind = .job

theorem Inv.start (inner : RegistryInner) : Inv reqs ids (start inner) where
  consistent := fun _ ↦ .waiting
  mutations := fun _ ↦ rfl
  jobs := fun _ ↦ rfl
  kinds := fun _ he ↦ absurd he List.not_mem_nil

/-- What one request does leaves the others alone. -/
theorem Inv.update (h : Inv reqs ids s) {hp : HandlerPhase} {tp : TaskPhase}
    (inner : RegistryInner) (log : List (ι × AuditEvent))
    (hc : Consistent (reqs i) (ids i) hp tp)
    (hmutations : ∀ j, records j .mutation log
      = if j = i then hp.emitted.map (j, ·) else records j .mutation s.log)
    (hjobs : ∀ j, records j .job log
      = if j = i then tp.emitted.map (j, ·) else records j .job s.log)
    (hkinds : ∀ e ∈ log, e.2.kind = .mutation ∨ e.2.kind = .job) :
    Inv reqs ids { inner, handler := Function.update s.handler i hp
                   task := Function.update s.task i tp, log } where
  consistent := by
    intro j
    by_cases hne : j = i
    · subst hne
      dsimp only
      rw [Function.update_self, Function.update_self]
      exact hc
    · dsimp only
      rw [Function.update_of_ne hne, Function.update_of_ne hne]
      exact h.consistent j
  mutations := by
    intro j
    dsimp only
    rw [hmutations]
    by_cases hne : j = i
    · subst hne
      rw [if_pos rfl, Function.update_self]
    · rw [if_neg hne, Function.update_of_ne hne]
      exact h.mutations j
  jobs := by
    intro j
    dsimp only
    rw [hjobs]
    by_cases hne : j = i
    · subst hne
      rw [if_pos rfl, Function.update_self]
    · rw [if_neg hne, Function.update_of_ne hne]
      exact h.jobs j
  kinds := hkinds

/-- One more record of a kind that the log may have. -/
theorem Inv.kinds_concat (h : Inv reqs ids s) {ev : AuditEvent}
    (hev : ev.kind = .mutation ∨ ev.kind = .job) :
    ∀ e ∈ s.log ++ [(i, ev)], e.2.kind = .mutation ∨ e.2.kind = .job := by
  intro e he
  rcases List.mem_append.mp he with he | he
  · exact h.kinds e he
  · obtain rfl := List.mem_singleton.mp he
    exact hev

theorem Inv.decide (h : Inv reqs ids s) (hi : s.handler i = .waiting) {inner : RegistryInner}
    {job : Option PackageJob} {events : List AuditEvent} {result : Except Diagnostic JobStartDto}
    (hdecide : (reqs i).decide (ids i) s.inner = (inner, job, events, result)) :
    Inv reqs ids { s with
      inner := inner
      handler := Function.update s.handler i (.decided events result)
      task := Function.update s.task i (.ofJob job) } := by
  have hquiet : s.task i = .absent := (hi ▸ h.consistent i).task_of_waiting
  have hnew : Consistent (reqs i) (ids i) (.decided events result) (.ofJob job) := by
    rcases (reqs i).decide_cases (ids i) s.inner with
      ⟨ev, d, hcase, hev, -⟩ | ⟨ev, hcase, hev, hname, hpackages⟩
    · rw [hcase, Prod.mk.injEq, Prod.mk.injEq, Prod.mk.injEq] at hdecide
      obtain ⟨-, rfl, rfl, rfl⟩ := hdecide
      exact .refused hev (.inl rfl)
    · rw [hcase, Prod.mk.injEq, Prod.mk.injEq, Prod.mk.injEq] at hdecide
      obtain ⟨-, rfl, rfl, rfl⟩ := hdecide
      exact .accepted hev hname hpackages (.inl rfl) .running
  refine h.update inner s.log hnew (fun j ↦ ?_) (fun j ↦ ?_) h.kinds
  · by_cases hne : j = i
    · subst hne
      rw [if_pos rfl, h.mutations, hi]
      rfl
    · rw [if_neg hne]
  · by_cases hne : j = i
    · subst hne
      rw [if_pos rfl, h.jobs, hquiet]
      cases job <;> rfl
    · rw [if_neg hne]

theorem Inv.answer (h : Inv reqs ids s) {events : List AuditEvent}
    {result : Except Diagnostic JobStartDto} (hi : s.handler i = .decided events result) :
    Inv reqs ids { s with
      handler := Function.update s.handler i (.answered events result)
      log := s.log ++ events.map (i, ·) } := by
  have hc := h.consistent i
  rw [hi] at hc
  obtain ⟨hanswered, ev, rfl, hkind⟩ := hc.answered
  have hupdate := h.update s.inner (s.log ++ [(i, ev)]) hanswered (fun j ↦ ?_) (fun j ↦ ?_)
    (h.kinds_concat (.inl hkind))
  · rw [Function.update_eq_self] at hupdate
    exact hupdate
  · rw [records_concat]
    by_cases hne : j = i
    · subst hne
      rw [if_pos ⟨rfl, hkind⟩, if_pos rfl, h.mutations, hi]
      rfl
    · rw [if_neg fun h ↦ hne h.1, if_neg hne]
  · have hother : ¬ (j = i ∧ ev.kind = .job) := by
      rintro ⟨-, hjob⟩
      cases hkind.symm.trans hjob
    rw [records_concat, if_neg hother]
    by_cases hne : j = i
    · subst hne
      rw [if_pos rfl, h.jobs]
    · rw [if_neg hne]

theorem Inv.work (h : Inv reqs ids s) {job : PackageJob} {mgr : PackageManager}
    (hi : s.task i = .running job) (hmgr : (reqs i).backend.packages = some mgr) :
    Inv reqs ids { s with
      task := Function.update s.task i
        (.ended (job.run mgr (reqs i).jobClock).1 (job.run mgr (reqs i).jobClock).2)
      log := s.log ++ [(i, (job.run mgr (reqs i).jobClock).1)] } := by
  have hc := h.consistent i
  rw [hi] at hc
  obtain rfl : job = (reqs i).job := hc.job_of_running.1
  have hkind := ((reqs i).job.run_event mgr (reqs i).jobClock).1
  have hupdate := h.update s.inner
    (s.log ++ [(i, ((reqs i).job.run mgr (reqs i).jobClock).1)]) (hc.task nofun fun _ ↦ .ended hmgr)
    (fun j ↦ ?_) (fun j ↦ ?_)
    (h.kinds_concat (.inr hkind))
  · rw [Function.update_eq_self] at hupdate
    exact hupdate
  · have hother : ¬ (j = i ∧
        ((reqs i).job.run mgr (reqs i).jobClock).1.kind = .mutation) := by
      rintro ⟨-, hmutation⟩
      cases hkind.symm.trans hmutation
    rw [records_concat, if_neg hother]
    by_cases hne : j = i
    · subst hne
      rw [if_pos rfl, h.mutations]
    · rw [if_neg hne]
  · rw [records_concat]
    by_cases hne : j = i
    · subst hne
      rw [if_pos ⟨rfl, hkind⟩, if_pos rfl, h.jobs, hi]
      rfl
    · rw [if_neg fun h ↦ hne h.1, if_neg hne]

theorem Inv.store (h : Inv reqs ids s) {event : AuditEvent} {result : Except Diagnostic Unit}
    (hi : s.task i = .ended event result) :
    Inv reqs ids { s with
      inner := s.inner.storeTerminal (terminalStatus (ids i).text result)
      task := Function.update s.task i (.stored event) } := by
  have hc := h.consistent i
  rw [hi] at hc
  have hstored : JobUnderway (reqs i) (.ended event result) →
      JobUnderway (reqs i) (.stored event) := by
    intro ht
    cases ht with
    | ended hmgr => exact .stored hmgr
  have hupdate := h.update
    (s.inner.storeTerminal (terminalStatus (ids i).text result)) s.log (hc.task nofun hstored)
    (fun j ↦ ?_) (fun j ↦ ?_) h.kinds
  · rw [Function.update_eq_self] at hupdate
    exact hupdate
  · by_cases hne : j = i
    · subst hne
      rw [if_pos rfl, h.mutations]
    · rw [if_neg hne]
  · by_cases hne : j = i
    · subst hne
      rw [if_pos rfl, h.jobs, hi]
      rfl
    · rw [if_neg hne]

/-- **A step keeps the invariant.** -/
theorem Step.inv (hstep : Step reqs ids i s s') (h : Inv reqs ids s) : Inv reqs ids s' := by
  cases hstep with
  | decide hi hdecide => exact h.decide hi hdecide
  | answer hi => exact h.answer hi
  | work hi hmgr => exact h.work hi hmgr
  | store hi => exact h.store hi

/-- **Every run keeps it.** -/
theorem Run.inv {inner : RegistryInner} (hrun : Run reqs ids (start inner) s) :
    Inv reqs ids s := by
  induction hrun with
  | refl => exact .start inner
  | tail _ hmove ih =>
      obtain ⟨i, hstep⟩ := hmove
      exact hstep.inv ih

/-! ## What the log has of a request -/

/-- The record of a request that is answered. -/
theorem Inv.of_answered (h : Inv reqs ids s) (hi : s.Answered i) :
    ∃ ev, records i .mutation s.log = [(i, ev)] ∧
      (s.Started i ∧ Acceptance (ids i) ev ∨ ¬ s.Started i ∧ Refusal ev) := by
  obtain ⟨events, result, hi⟩ := hi
  have hc := h.consistent i
  have hrecords := h.mutations i
  rw [hi] at hc hrecords
  unfold Started
  generalize s.task i = t at hc
  cases hc with
  | @refused _ ev d hev hh =>
      rcases hh with hh | hh
      · cases hh
      · obtain ⟨rfl, rfl⟩ := HandlerPhase.answered.inj hh
        exact ⟨ev, hrecords, .inr ⟨fun hstarted ↦ hstarted rfl, hev⟩⟩
  | @accepted _ _ ev hev hname hpackages hh ht =>
      rcases hh with hh | hh
      · cases hh
      · obtain ⟨rfl, rfl⟩ := HandlerPhase.answered.inj hh
        refine ⟨ev, hrecords, .inl ⟨?_, hev⟩⟩
        rintro rfl
        cases ht

/-- There is no record before. -/
theorem Inv.of_not_answered (h : Inv reqs ids s) (hi : ¬ s.Answered i) :
    records i .mutation s.log = [] := by
  rw [h.mutations]
  cases hphase : s.handler i with
  | waiting => rfl
  | decided => rfl
  | answered events result => exact absurd ⟨events, result, hphase⟩ hi

/-- The record of a job that is complete. -/
theorem Inv.of_completed (h : Inv reqs ids s) (hi : s.Completed i) :
    s.Started i ∧ (PackageName.parse (reqs i).name).isSome ∧
      ∃ mgr, (reqs i).backend.packages = some mgr ∧
        records i .job s.log = [(i, ((reqs i).job.run mgr (reqs i).jobClock).1)] := by
  have hc := h.consistent i
  have hrecords := h.jobs i
  unfold Completed at hi
  unfold Started
  generalize s.handler i = p at hc
  generalize s.task i = t at hc hrecords hi
  cases hc with
  | waiting => rcases hi with ⟨_, _, hi⟩ | ⟨_, hi⟩ <;> cases hi
  | refused => rcases hi with ⟨_, _, hi⟩ | ⟨_, hi⟩ <;> cases hi
  | accepted hev hname hpackages hh ht =>
      cases ht with
      | running => rcases hi with ⟨_, _, hi⟩ | ⟨_, hi⟩ <;> cases hi
      | ended hmgr => exact ⟨nofun, hname, _, hmgr, hrecords⟩
      | stored hmgr => exact ⟨nofun, hname, _, hmgr, hrecords⟩

/-- There is no record before. -/
theorem Inv.of_not_completed (h : Inv reqs ids s) (hi : ¬ s.Completed i) :
    records i .job s.log = [] := by
  rw [h.jobs]
  cases hphase : s.task i with
  | absent => rfl
  | running => rfl
  | ended event result => exact absurd (.inl ⟨event, result, hphase⟩) hi
  | stored event => exact absurd (.inr ⟨event, hphase⟩) hi

/-- Whatever has happened, a handler can go on and answer. -/
theorem exists_answered (reqs : ι → PackageRequest core) (ids : ι → JobId) (s : Mutations ι)
    (i : ι) : ∃ s', Run reqs ids s s' ∧ s'.Answered i := by
  have hdecided : ∀ {s : Mutations ι} {events result}, s.handler i = .decided events result →
      ∃ s', Run reqs ids s s' ∧ s'.Answered i := by
    intro s events result hi
    exact ⟨_, .single ⟨i, .answer hi⟩, events, result, Function.update_self _ _ _⟩
  cases hi : s.handler i with
  | waiting =>
      obtain ⟨s', hrun, hanswered⟩ := hdecided (s := { s with
        inner := ((reqs i).decide (ids i) s.inner).1
        handler := Function.update s.handler i
          (.decided ((reqs i).decide (ids i) s.inner).2.2.1
            ((reqs i).decide (ids i) s.inner).2.2.2)
        task := Function.update s.task i (.ofJob ((reqs i).decide (ids i) s.inner).2.1) })
        (Function.update_self _ _ _)
      exact ⟨s', .head ⟨i, .decide hi rfl⟩ hrun, hanswered⟩
  | decided events result => exact hdecided hi
  | answered events result => exact ⟨s, .refl, events, result, hi⟩

/-- A job that is underway can go on and complete. -/
theorem Inv.exists_completed (h : Inv reqs ids s) (hi : s.Started i) :
    ∃ s', Run reqs ids s s' ∧ s'.Completed i := by
  cases hphase : s.task i with
  | absent => exact absurd hphase hi
  | running job =>
      have hc := h.consistent i
      rw [hphase] at hc
      obtain ⟨mgr, hmgr⟩ := Option.isSome_iff_exists.mp hc.job_of_running.2
      exact ⟨_, .single ⟨i, .work hphase hmgr⟩, .inl ⟨_, _, Function.update_self _ _ _⟩⟩
  | ended event result => exact ⟨s, .refl, .inl ⟨event, result, hphase⟩⟩
  | stored event => exact ⟨s, .refl, .inr ⟨event, hphase⟩⟩

/-- **Package mutations are accounted for.**  With a registry in any state at the start, and
whatever requests come and whatever the backend answers, in any interleaving of handlers and jobs,
nothing else is in the log but records of mutations and of jobs, and of every request:

* its mutation record, from the moment it is answered on, which it will be: one, `ok` exactly if the
  request has started a job, and then it names the id of this job and no other one, and otherwise
  `err` and names none;
* and the record of the job, from its completion on, which will be if there is one: one, `ok`
  exactly if the backend's operation has returned `Ok`. -/
theorem package_accounting {inner : RegistryInner} (hrun : Run reqs ids (start inner) s) :
    (∀ e ∈ s.log, e.2.kind = .mutation ∨ e.2.kind = .job) ∧
    ∀ i, (¬ s.Answered i → records i .mutation s.log = []) ∧
      (s.Answered i → ∃ ev, records i .mutation s.log = [(i, ev)] ∧
        (ev.decision = .ok ↔ s.Started i) ∧ (ev.decision = .err ↔ ¬ s.Started i) ∧
        ∀ id, namesJob id ev = true ↔ s.Started i ∧ id = ids i) ∧
      (¬ s.Completed i → records i .job s.log = []) ∧
      (s.Completed i → s.Started i ∧ ∃ ev mgr, records i .job s.log = [(i, ev)] ∧
        (reqs i).backend.packages = some mgr ∧
        (ev.decision = .ok ↔ (reqs i).verb.call mgr (reqs i).name = .ok ())) ∧
      (∃ s', Run reqs ids s s' ∧ s'.Answered i) ∧
      (s.Started i → ∃ s', Run reqs ids s s' ∧ s'.Completed i) := by
  have h := hrun.inv
  refine ⟨h.kinds, fun i ↦ ⟨h.of_not_answered, fun hi ↦ ?_, h.of_not_completed, fun hi ↦ ?_,
    exists_answered reqs ids s i, h.exists_completed⟩⟩
  · obtain ⟨ev, hrecords, ⟨hstarted, hev⟩ | ⟨hstarted, hev⟩⟩ := h.of_answered hi
    · refine ⟨ev, hrecords, ?_, ?_, fun id ↦ ?_⟩
      · simp [hev.decision, hstarted]
      · simp [hev.decision, hstarted]
      · rw [hev.names]
        simp [hstarted]
    · refine ⟨ev, hrecords, ?_, ?_, fun id ↦ ?_⟩
      · simp [hev.decision, hstarted]
      · simp [hev.decision, hstarted]
      · rw [hev.names]
        simp [hstarted]
  · obtain ⟨hstarted, -, mgr, hmgr, hrecords⟩ := h.of_completed hi
    exact ⟨hstarted, _, mgr, hrecords, hmgr,
      ((reqs i).job.run_event mgr (reqs i).jobClock).2.1⟩

/-! ## Joining the two halves -/

/-- Every record of a job contains an id that exactly one record of a mutation names, and this is
the one of the request that has started the job. -/
def Joined (s : Mutations ι) : Prop :=
  ∀ e ∈ s.log, e.2.kind = .job → ∃ id ev, mentionsJob id e.2 = true ∧
    (s.log.filter fun e' ↦ e'.2.kind = .mutation ∧ namesJob id e'.2) = [(e.1, ev)]

/-- A record of a mutation is that of a request that is answered. -/
theorem Inv.of_mem_log (h : Inv reqs ids s) {e : ι × AuditEvent} (he : e ∈ s.log)
    (hkind : e.2.kind = .mutation) :
    s.Answered e.1 ∧ (s.Started e.1 ∧ Acceptance (ids e.1) e.2 ∨
      ¬ s.Started e.1 ∧ Refusal e.2) := by
  have hmem : e ∈ records e.1 .mutation s.log := by
    rw [records, List.mem_filter]
    exact ⟨he, decide_eq_true ⟨rfl, hkind⟩⟩
  by_cases hanswered : s.Answered e.1
  · obtain ⟨ev, hrecords, hev⟩ := h.of_answered hanswered
    rw [hrecords, List.mem_singleton] at hmem
    refine ⟨hanswered, ?_⟩
    rw [show e.2 = ev from congrArg Prod.snd hmem]
    exact hev
  · rw [h.of_not_answered hanswered] at hmem
    exact absurd hmem List.not_mem_nil

/-- The record of a request that has started a job is the only one that names the id of the job. -/
theorem Inv.filter_namesJob (hids : Function.Injective ids) (h : Inv reqs ids s)
    (hi : s.Started i) :
    (s.log.filter fun e ↦ e.2.kind = .mutation ∧ namesJob (ids i) e.2)
      = records i .mutation s.log := by
  refine List.filter_congr fun e he ↦ decide_eq_decide.mpr ?_
  constructor
  · rintro ⟨hkind, hnames⟩
    obtain ⟨-, ⟨-, hev⟩ | ⟨-, hev⟩⟩ := h.of_mem_log he hkind
    · exact ⟨hids ((hev.names _).mp hnames).symm, hkind⟩
    · rw [hev.names] at hnames
      cases hnames
  · rintro ⟨rfl, hkind⟩
    obtain ⟨-, ⟨-, hev⟩ | ⟨hnot, -⟩⟩ := h.of_mem_log he hkind
    · exact ⟨hkind, (hev.names _).mpr rfl⟩
    · exact absurd hi hnot

/-- What can be joined is joined by the name of the package. -/
theorem Inv.of_joined (h : Inv reqs ids s) (hjoined : Joined s) (hi : s.Completed i) :
    s.Answered i ∧ (ids i).text.toList <:+: (reqs i).name.toList := by
  obtain ⟨-, hname, mgr, -, hrecords⟩ := h.of_completed hi
  have hkind := ((reqs i).job.run_event mgr (reqs i).jobClock).1
  have hmem : (i, ((reqs i).job.run mgr (reqs i).jobClock).1) ∈ records i .job s.log := by
    rw [hrecords]
    exact List.mem_cons_self
  obtain ⟨id, ev, hmentions, hone⟩ := hjoined _ (List.mem_filter.mp hmem).1 hkind
  have hnamed : (i, ev) ∈ s.log.filter fun e ↦ e.2.kind = .mutation ∧ namesJob id e.2 := by
    rw [hone]
    exact List.mem_cons_self
  rw [List.mem_filter, decide_eq_true_eq] at hnamed
  obtain ⟨hanswered, ⟨-, hev⟩ | ⟨-, hev⟩⟩ := h.of_mem_log hnamed.1 hnamed.2.1
  · obtain rfl := (hev.names id).mp hnamed.2.2
    have hiff := @PackageJob.mentionsJob_iff (reqs i).job mgr (reqs i).jobClock hname (ids i)
    exact ⟨hanswered, hiff.mp hmentions⟩
  · have hnot := hnamed.2.2
    rw [hev.names] at hnot
    cases hnot

/-- **When the two halves can be joined.**  In every state that a daemon serving package mutations
can reach: exactly if the name of each package whose job is complete contains the id that was drawn
for this job, and the request has been answered. -/
theorem joined_iff (hids : Function.Injective ids) {inner : RegistryInner}
    (hrun : Run reqs ids (start inner) s) :
    Joined s ↔ ∀ i, s.Completed i →
      s.Answered i ∧ (ids i).text.toList <:+: (reqs i).name.toList := by
  have h := hrun.inv
  constructor
  · exact fun hjoined i hi ↦ h.of_joined hjoined hi
  · intro hall e he hkind
    have hmem : e ∈ records e.1 .job s.log := by
      rw [records, List.mem_filter]
      exact ⟨he, decide_eq_true ⟨rfl, hkind⟩⟩
    by_cases hcompleted : s.Completed e.1
    · obtain ⟨hstarted, hname, mgr, -, hrecords⟩ := h.of_completed hcompleted
      obtain ⟨hanswered, hinfix⟩ := hall e.1 hcompleted
      obtain ⟨ev, hrecord, -⟩ := h.of_answered hanswered
      rw [hrecords, List.mem_singleton] at hmem
      refine ⟨ids e.1, ev, ?_, ?_⟩
      · rw [show e.2 = ((reqs e.1).job.run mgr (reqs e.1).jobClock).1 from congrArg Prod.snd hmem]
        have hiff := @PackageJob.mentionsJob_iff (reqs e.1).job mgr (reqs e.1).jobClock hname
          (ids e.1)
        exact hiff.mpr hinfix
      · rw [h.filter_namesJob hids hstarted]
        exact hrecord
    · rw [h.of_not_completed hcompleted] at hmem
      exact absurd hmem List.not_mem_nil

end Accounting

/-! ## One request alone -/

/-- A request that can be served, alone, is accepted, and its job completes. -/
theorem exists_served {core : ScopeSets} (req : PackageRequest core) (id : JobId)
    (hname : (PackageName.parse req.name).isSome) {mgr : PackageManager}
    (hmgr : req.backend.packages = some mgr) :
    ∃ s : Mutations Unit, Run (fun _ ↦ req) (fun _ ↦ id) (start .new) s ∧ s.Completed () ∧
      s.Answered () := by
  rcases req.decide_cases id .new with ⟨-, -, -, -, hnone | hnone | hbusy⟩ | ⟨ev, hdecide, -⟩
  · rw [hnone] at hname
    cases hname
  · cases hnone.symm.trans hmgr
  · exact absurd rfl hbusy
  · have hrun : Run (fun _ ↦ req) (fun _ ↦ id) (start .new : Mutations Unit) _ :=
      ((Relation.ReflTransGen.single ⟨(), .decide rfl hdecide⟩).tail
        ⟨(), .answer rfl⟩).tail ⟨(), .work rfl hmgr⟩
    exact ⟨_, hrun, .inl ⟨_, _, rfl⟩, _, _, rfl⟩

/-- The id of a job. -/
def sampleId : JobId where
  text := "16fd2706-8baf-433b-82eb-8c7fada847da"
  length_eq := by decide
  chars := List.all_eq_true.mp (by decide)

/-- A package manager that removes, and takes too long to install. -/
def slowManager : PackageManager where
  list := fun _ _ _ ↦ .error .unsupported
  install := fun _ ↦ .error .timeout
  remove := fun _ ↦ .ok ()

/-- A request of an administrator on a host with that manager. -/
def sampleRequest (name : String) : PackageRequest .lists where
  verb := .install
  name := name
  subject := ⟨"user:admin", ["server.packages.write"]⟩
  backend :=
    { host := ⟨.error .unavailable⟩, services := none, packages := some slowManager, logs := none
      caps := ⟨false, true, false, false⟩ }
  jobSnap := .default
  eventSnap := .default
  clock := ⟨1700000000, 180⟩
  jobClock := ⟨1700000300, 300000000⟩

/-- An installation that takes too long. -/
theorem package_accounting_timeout :
    ∃ s : Mutations Unit, Run (fun _ ↦ sampleRequest "nginx") (fun _ ↦ sampleId) (start .new) s ∧
      (∃ ev, records () .mutation s.log = [((), ev)] ∧ ev.decision = .ok ∧
        namesJob sampleId ev = true) ∧
      ∃ ev, records () .job s.log = [((), ev)] ∧ ev.decision ≠ .ok := by
  obtain ⟨s, hrun, hcompleted, hanswered⟩ :=
    exists_served (sampleRequest "nginx") sampleId (by decide) rfl
  obtain ⟨-, hall⟩ := package_accounting hrun
  obtain ⟨-, hmutation, -, hjob, -, -⟩ := hall ()
  obtain ⟨hstarted, ev, mgr, hrecords, hmgr, hok⟩ := hjob hcompleted
  obtain ⟨ev', hrecords', hok', -, hnames⟩ := hmutation hanswered
  refine ⟨s, hrun, ⟨ev', hrecords', hok'.mpr hstarted, (hnames _).mpr ⟨hstarted, rfl⟩⟩, ev,
    hrecords, ?_⟩
  cases hmgr
  rw [Ne, hok]
  exact nofun

/-- The record of a job that installed `nginx` contains no id. -/
theorem not_joined :
    ∃ s : Mutations Unit, Run (fun _ ↦ sampleRequest "nginx") (fun _ ↦ sampleId) (start .new) s ∧
      s.Completed () ∧ s.Answered () ∧ ¬ Joined s := by
  obtain ⟨s, hrun, hcompleted, hanswered⟩ :=
    exists_served (sampleRequest "nginx") sampleId (by decide) rfl
  refine ⟨s, hrun, hcompleted, hanswered, fun hjoined ↦ ?_⟩
  have hinfix := (hrun.inv.of_joined hjoined hcompleted).2
  revert hinfix
  decide

/-- A package that is called like the job. -/
theorem joined_iff_same_name :
    ∃ s : Mutations Unit,
      Run (fun _ ↦ sampleRequest sampleId.text) (fun _ ↦ sampleId) (start .new) s ∧
      s.Completed () ∧ Joined s := by
  obtain ⟨s, hrun, hcompleted, hanswered⟩ :=
    exists_served (sampleRequest sampleId.text) sampleId (by decide) rfl
  have hids : Function.Injective fun _ : Unit ↦ sampleId := fun _ _ _ ↦ rfl
  exact ⟨s, hrun, hcompleted,
    (joined_iff hids hrun).mpr fun _ _ ↦ ⟨hanswered, List.infix_refl _⟩⟩

end Mutations

end Vaiexia.Api
