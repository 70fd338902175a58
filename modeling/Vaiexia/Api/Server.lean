import Vaiexia.Api.Dispatch
import Vaiexia.Api.Jobs
import Vaiexia.Backend.Types
import Vaiexia.Privd.Protocol

/-!
# The handlers of the server module

`server_host.rs`, `server_services.rs`, `server_packages.rs`, `server_logs.rs` and `server_jobs.rs`
of `crates/vaiexia-server/src/api`, with the records of `dto.rs` and the mapping of `diag.rs`.

A handler that looks up the account of its caller takes the snapshot that it reads there as an
argument, one for each time.  The readings of its clocks are arguments too, and so is whether a
timeout elapses.
-/

namespace Vaiexia.Api

open Vaiexia.Lib Vaiexia.Audit Vaiexia.Auth Vaiexia.Backend

/-! ## Diagnostics -/

/-- `domain_codes::NOT_FOUND`. -/
def notFoundCode : Code := .named "NOT_FOUND"

/-- `domain_codes::UNSUPPORTED`. -/
def unsupportedCode : Code := .named "UNSUPPORTED"

/-- `backend_error_to_diagnostic`. -/
def backendErrorToDiagnostic : BackendError → Diagnostic
  | .notFound => ⟨notFoundCode, "resource not found"⟩
  | .invalidName => ⟨.invalidParams, "invalid name"⟩
  | .unsupported => ⟨unsupportedCode, "operation not supported on this host"⟩
  | .unavailable => ⟨.named "BACKEND_UNAVAILABLE", "backend unavailable"⟩
  | .busy => ⟨.named "BUSY", "resource busy"⟩
  | .timeout => ⟨.named "TIMEOUT", "operation timed out"⟩
  | .denied | .protocol | .io | .internal _ | .invalidInput _ => ⟨.internal, "internal error"⟩

/-! ## Responses -/

/-- `HostInfoDto`. -/
structure HostInfoDto where
  hostname : String
  os : String
  kernel : String
  arch : String
  capabilities : BackendCapabilities

/-- `HostInfoDto::from_parts`. -/
def HostInfoDto.fromParts (h : HostInfo) (caps : BackendCapabilities) : HostInfoDto where
  hostname := h.hostname
  os := h.os
  kernel := h.kernel
  arch := h.arch
  capabilities := caps

/-- `PageDto`. -/
structure PageDto (α : Type) where
  items : List α
  next : Option String

/-- `PageDto::map_from`. -/
def PageDto.mapFrom {α β : Type} (page : Page α) (f : α → β) : PageDto β where
  items := page.items.map f
  next := page.next

/-- `UnitDetailDto`. -/
structure UnitDetailDto where
  name : String
  description : String
  loadState : String
  activeState : ServiceState
  subState : String
  sinceMs : Option UInt64
  mainPid : Option UInt32

/-- The `From` of `UnitDetailDto`. -/
def UnitDetailDto.ofDetail (d : UnitDetail) : UnitDetailDto where
  name := d.status.name
  description := d.status.description
  loadState := d.status.loadState
  activeState := d.status.activeState
  subState := d.status.subState
  sinceMs := d.sinceMs
  mainPid := d.mainPid

/-! ## The host -/

/-- `host_info_result`. -/
def hostInfoResult (be : SystemBackend) : Except Diagnostic HostInfoDto :=
  match be.host.hostInfo with
  | .error e => .error (backendErrorToDiagnostic e)
  | .ok host => .ok (.fromParts host be.caps)

/-! ## Services -/

/-- `ServicesListParams`. -/
structure ServicesListParams where
  stateFilter : Option ServiceState
  nameGlob : Option String
  page : Option String

/-- `MAX_GLOB_LEN`. -/
def maxGlobLen : Nat := 256

/-- `services_list_result`.  The records of the listing are sent with the same fields. -/
def servicesListResult (be : SystemBackend) (p : ServicesListParams) :
    Except Diagnostic (PageDto UnitStatus) :=
  if p.nameGlob.any fun g ↦ maxGlobLen < Utf8.byteLen g.toList then
    .error ⟨.invalidParams, "name_glob too long"⟩
  else
    match be.services with
    | none => .error ⟨unsupportedCode, "services not supported on this host"⟩
    | some mgr =>
        match mgr.list p.stateFilter p.nameGlob p.page with
        | .error e => .error (backendErrorToDiagnostic e)
        | .ok page => .ok (.mapFrom page id)

/-- `validate_and_get_manager`, with which `service_status_result` begins too. -/
def validateAndGetManager (be : SystemBackend) (name : String) :
    Except Diagnostic (ServiceManager × String) :=
  match unitName name with
  | none => .error ⟨.invalidParams, "invalid unit name"⟩
  | some _ =>
      match be.services with
      | none => .error ⟨unsupportedCode, "services not supported on this host"⟩
      | some mgr => .ok (mgr, name)

/-- `service_status_result`. -/
def serviceStatusResult (be : SystemBackend) (name : String) : Except Diagnostic UnitDetailDto :=
  match validateAndGetManager be name with
  | .error d => .error d
  | .ok (mgr, name) =>
      match mgr.status name with
      | .error e => .error (backendErrorToDiagnostic e)
      | .ok detail => .ok (.ofDetail detail)

/-- `ServiceVerb`. -/
inductive ServiceVerb where
  | start | stop | restart
deriving DecidableEq, Repr

/-- `ServiceVerb::method`. -/
def ServiceVerb.method : ServiceVerb → String
  | start => "server.services.start"
  | stop => "server.services.stop"
  | restart => "server.services.restart"

/-- The call of the manager for a verb. -/
def ServiceVerb.call (verb : ServiceVerb) (mgr : ServiceManager) (name : String) :
    Except BackendError ServiceState :=
  match verb with
  | start => mgr.start name
  | stop => mgr.stop name
  | restart => mgr.restart name

/-- `ServiceOutcomeDto`. -/
structure ServiceOutcomeDto where
  outcome : String
  state : ServiceState

/-- The readings of the clocks for an event. -/
structure EventClock where
  now : UInt64
  latencyUs : UInt64

/-- `run_service_mutation`. -/
def runServiceMutation {core : ScopeSets} (be : SystemBackend) (clock : EventClock)
    (elapsed : Bool) (snap : IdentitySnapshot) (subject : Subject core) (verb : ServiceVerb)
    (name : String) : List AuditEvent × Except Diagnostic ServiceOutcomeDto :=
  match validateAndGetManager be name with
  | .error d => ([], .error d)
  | .ok (mgr, name) =>
      let emit (decision : AuditDecision) (outcome : String) :=
        (((subjectEvent clock.now snap subject .mutation decision).withMethod
          verb.method).withDetail s!"unit={name} outcome={outcome}").withLatencyUs clock.latencyUs
      if elapsed then ([emit .err "timeout"], .ok ⟨"timeout", .unknown⟩)
      else
        match verb.call mgr name with
        | .error e => ([emit .err "err"], .error (backendErrorToDiagnostic e))
        | .ok state => ([emit .ok "ok"], .ok ⟨"ok", state⟩)

/-! ## Packages -/

/-- `PackagesListParams`. -/
structure PackagesListParams where
  query : Option String
  installedOnly : Bool
  page : Option String

/-- `packages_list_result`. -/
def packagesListResult (be : SystemBackend) (p : PackagesListParams) :
    Except Diagnostic (PageDto PackageInfo) :=
  match be.packages with
  | none => .error ⟨unsupportedCode, "packages not supported on this host"⟩
  | some mgr =>
      match mgr.list p.query p.installedOnly p.page with
      | .error e => .error (backendErrorToDiagnostic e)
      | .ok page => .ok (.mapFrom page id)

/-- `PackageVerb`. -/
inductive PackageVerb where
  | install | remove
deriving DecidableEq, Repr

/-- `PackageVerb::method`. -/
def PackageVerb.method : PackageVerb → String
  | install => "server.packages.install"
  | remove => "server.packages.remove"

/-- The call of the manager for a verb. -/
def PackageVerb.call (verb : PackageVerb) (mgr : PackageManager) (name : String) :
    Except BackendError Unit :=
  match verb with
  | install => mgr.install name
  | remove => mgr.remove name

/-- `parse_package_name`. -/
def parsePackageName (name : String) : Except Diagnostic String :=
  match Privd.PackageName.parse name with
  | some n => .ok n.text
  | none => .error ⟨.invalidParams, "invalid package name"⟩

/-- `backend_outcome`. -/
def backendOutcome : BackendError → String
  | .timeout => "timeout"
  | .unavailable => "unavailable"
  | .denied => "denied"
  | .notFound => "not_found"
  | .invalidName | .invalidInput _ => "invalid_name"
  | _ => "err"

/-- The critical section of `try_start`: `id` is the identifier that was drawn. -/
def RegistryInner.tryStart (id : String) (inner : RegistryInner) :
    RegistryInner × Except BackendError String :=
  if inner.running.isSome then (inner, .error .busy)
  else ({ inner with running := some id }, .ok id)

/-- A call of `try_start` takes the step that its critical section computes. -/
theorem Registry.step_tryStart {ι : Type} [DecidableEq ι] (ids : ι → String) {i : ι}
    {r : Registry ι} (hi : r.phase i = .idle) :
    ∃ r', Registry.Step ids i r r' ∧ r'.inner = (r.inner.tryStart (ids i)).1 := by
  cases hrunning : r.inner.running with
  | none =>
      refine ⟨_, .accept hi hrunning, ?_⟩
      simp [RegistryInner.tryStart, hrunning]
  | some id =>
      refine ⟨_, .refuse hi (by simp [hrunning]), ?_⟩
      simp [RegistryInner.tryStart, hrunning, Registry.set]

/-- What a package job owns. -/
structure PackageJob where
  verb : PackageVerb
  name : String
  subject : String
  capKeyId : Option String

/-- The future of a package job: its event, and its result. -/
def PackageJob.run (job : PackageJob) (mgr : PackageManager) (clock : EventClock) :
    AuditEvent × Except Diagnostic Unit :=
  let result := job.verb.call mgr job.name
  let (decision, outcome) :=
    match result with
    | .ok () => (AuditDecision.ok, "ok")
    | .error e => (AuditDecision.err, backendOutcome e)
  let ev := (AuditEvent.new clock.now .job decision job.subject).withMethod job.verb.method
  let ev := (ev.withDetail s!"pkg={job.name} outcome={outcome}").withLatencyUs clock.latencyUs
  let ev :=
    match job.capKeyId with
    | some k => ev.withCapKeyId k
    | none => ev
  (ev, result.mapError backendErrorToDiagnostic)

/-- `JobStartDto`. -/
structure JobStartDto where
  jobId : String

/-- `run_package_mutation`, with the job that it spawns.  The account of the caller is looked up for
the job, in `jobSnap`, and for the event of the request, in `eventSnap`. -/
def runPackageMutation {core : ScopeSets} (be : SystemBackend) (clock : EventClock) (id : String)
    (jobSnap eventSnap : IdentitySnapshot) (subject : Subject core) (verb : PackageVerb)
    (name : String) (inner : RegistryInner) :
    RegistryInner × Option PackageJob × List AuditEvent × Except Diagnostic JobStartDto :=
  let event (decision : AuditDecision) (detail : String) :=
    (((subjectEvent clock.now eventSnap subject .mutation decision).withMethod
      verb.method).withDetail detail).withLatencyUs clock.latencyUs
  match parsePackageName name with
  | .error d => (inner, none, [event .err "outcome=rejected reason=invalid_name"], .error d)
  | .ok name =>
      match be.packages with
      | none =>
          (inner, none, [event .err s!"pkg={name} outcome=rejected reason=unsupported"],
            .error ⟨unsupportedCode, "packages not supported"⟩)
      | some _ =>
          let job : PackageJob :=
            { verb, name, subject := subjectLabel subject jobSnap, capKeyId := capKeyId subject }
          match inner.tryStart id with
          | (inner, .error e) =>
              (inner, none, [event .err s!"pkg={name} outcome=rejected reason=busy"],
                .error (backendErrorToDiagnostic e))
          | (inner, .ok jobId) =>
              (inner, some job, [event .ok s!"pkg={name} outcome=accepted job={jobId}"],
                .ok ⟨jobId⟩)

/-! ## Logs and jobs -/

/-- `LogsQueryParams`. -/
structure LogsQueryParams where
  unit : Option String
  since : Option UInt64
  «until» : Option UInt64
  limit : UInt32
  cursor : Option String

/-- `MAX_LIMIT`. -/
def maxLimit : UInt32 := 1000

/-- `logs_query_result`. -/
def logsQueryResult (be : SystemBackend) (p : LogsQueryParams) :
    Except Diagnostic (PageDto LogEntry) :=
  if maxLimit < p.limit then .error ⟨.invalidParams, "limit exceeds maximum of 1000"⟩
  else if p.limit = 0 then .error ⟨.invalidParams, "limit must be > 0"⟩
  else if p.unit.any fun u ↦ (unitName u).isNone then .error ⟨.invalidParams, "invalid unit name"⟩
  else if p.cursor.any fun c ↦ !isValidCursor c then .error ⟨.invalidParams, "invalid cursor"⟩
  else
    match be.logs with
    | none => .error ⟨unsupportedCode, "logs not supported on this host"⟩
    | some provider =>
        match provider.query ⟨p.unit, p.since, p.until, p.limit, p.cursor⟩ with
        | .error e => .error (backendErrorToDiagnostic e)
        | .ok page => .ok (.mapFrom page id)

/-- `jobs_status_result`. -/
def jobsStatusResult (inner : RegistryInner) (jobId : String) : Except Diagnostic JobStatus :=
  match inner.status jobId with
  | some status => .ok status
  | none => .error ⟨notFoundCode, "job not found"⟩

end Vaiexia.Api
