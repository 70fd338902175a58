import Vaiexia.Api.Secrecy

/-!
# The texts of backend errors

Some errors of a backend carry a text: what D-Bus, a package manager or an operating system has
said.  Such a text is for the daemon's own log.  Here two runs are compared whose backends answer
the same but for these texts: callers get the same answers, the status of a job included, and the
audit trail has the same events.  `Observed.unwinding` is about one call, and `observations_eq`
about runs.
-/

namespace Vaiexia.Api

open Vaiexia.Lib Vaiexia.Audit Vaiexia.Auth Vaiexia.Backend

/-! ## Without the texts -/

/-- An error without its text. -/
def withoutText : BackendError → BackendError
  | .invalidInput _ => .invalidInput ""
  | .internal _ => .internal ""
  | e => e

/-- The host, without the texts. -/
def hostWithoutTexts (host : HostInfoProvider) : HostInfoProvider where
  hostInfo := host.hostInfo.mapError withoutText

/-- A manager of services, without the texts. -/
def servicesWithoutTexts (mgr : ServiceManager) : ServiceManager where
  list := fun state glob page ↦ (mgr.list state glob page).mapError withoutText
  status := fun name ↦ (mgr.status name).mapError withoutText
  start := fun name ↦ (mgr.start name).mapError withoutText
  stop := fun name ↦ (mgr.stop name).mapError withoutText
  restart := fun name ↦ (mgr.restart name).mapError withoutText

/-- A manager of packages, without the texts. -/
def packagesWithoutTexts (mgr : PackageManager) : PackageManager where
  list := fun query installedOnly page ↦ (mgr.list query installedOnly page).mapError withoutText
  install := fun name ↦ (mgr.install name).mapError withoutText
  remove := fun name ↦ (mgr.remove name).mapError withoutText

/-- The logs, without the texts. -/
def logsWithoutTexts (provider : LogProvider) : LogProvider where
  query := fun q ↦ (provider.query q).mapError withoutText

/-- A backend without the texts. -/
def backendWithoutTexts (be : SystemBackend) : SystemBackend where
  host := hostWithoutTexts be.host
  services := be.services.map servicesWithoutTexts
  packages := be.packages.map packagesWithoutTexts
  logs := be.logs.map logsWithoutTexts
  caps := be.caps

/-- What a request finds, without the texts. -/
def Env.withoutTexts (env : Env) : Env := { env with backend := backendWithoutTexts env.backend }

/-! ## The handlers -/

theorem backendErrorToDiagnostic_withoutText (e : BackendError) :
    backendErrorToDiagnostic (withoutText e) = backendErrorToDiagnostic e := by
  cases e <;> rfl

theorem backendOutcome_withoutText (e : BackendError) :
    backendOutcome (withoutText e) = backendOutcome e := by
  cases e <;> rfl

theorem hostInfoResult_withoutTexts (be : SystemBackend) :
    hostInfoResult (backendWithoutTexts be) = hostInfoResult be := by
  unfold hostInfoResult backendWithoutTexts hostWithoutTexts
  cases be.host.hostInfo with
  | error e => exact congrArg Except.error (backendErrorToDiagnostic_withoutText e)
  | ok host => rfl

theorem servicesListResult_withoutTexts (be : SystemBackend) (p : ServicesListParams) :
    servicesListResult (backendWithoutTexts be) p = servicesListResult be p := by
  unfold servicesListResult backendWithoutTexts
  dsimp only
  cases be.services with
  | none => rfl
  | some mgr =>
      dsimp only [Option.map_some, servicesWithoutTexts]
      cases mgr.list p.stateFilter p.nameGlob p.page with
      | error e =>
          dsimp only [Except.mapError]
          rw [backendErrorToDiagnostic_withoutText]
      | ok page => rfl

theorem validateAndGetManager_withoutTexts (be : SystemBackend) (name : String) :
    validateAndGetManager (backendWithoutTexts be) name =
      (validateAndGetManager be name).map (Prod.map servicesWithoutTexts id) := by
  unfold validateAndGetManager backendWithoutTexts
  dsimp only
  cases unitName name with
  | none => rfl
  | some name' =>
      cases be.services with
      | none | some mgr => rfl

theorem serviceStatusResult_withoutTexts (be : SystemBackend) (name : String) :
    serviceStatusResult (backendWithoutTexts be) name = serviceStatusResult be name := by
  unfold serviceStatusResult
  rw [validateAndGetManager_withoutTexts]
  cases validateAndGetManager be name with
  | error d => rfl
  | ok found =>
      obtain ⟨mgr, name'⟩ := found
      dsimp only [Except.map, Prod.map, servicesWithoutTexts, id]
      cases mgr.status name' with
      | error e =>
          dsimp only [Except.mapError]
          rw [backendErrorToDiagnostic_withoutText]
      | ok detail => rfl

theorem serviceCall_withoutTexts (verb : ServiceVerb) (mgr : ServiceManager) (name : String) :
    verb.call (servicesWithoutTexts mgr) name = (verb.call mgr name).mapError withoutText := by
  cases verb <;> rfl

theorem runServiceMutation_withoutTexts {core : ScopeSets} (be : SystemBackend) (clock : EventClock)
    (elapsed : Bool) (snap : IdentitySnapshot) (subject : Subject core) (verb : ServiceVerb)
    (name : String) :
    runServiceMutation (backendWithoutTexts be) clock elapsed snap subject verb name =
      runServiceMutation be clock elapsed snap subject verb name := by
  unfold runServiceMutation
  rw [validateAndGetManager_withoutTexts]
  cases validateAndGetManager be name with
  | error d => rfl
  | ok found =>
      obtain ⟨mgr, name'⟩ := found
      dsimp only [Except.map, Prod.map, id]
      rw [serviceCall_withoutTexts]
      cases verb.call mgr name' with
      | error e =>
          dsimp only [Except.mapError]
          rw [backendErrorToDiagnostic_withoutText]
      | ok state => rfl

theorem packagesListResult_withoutTexts (be : SystemBackend) (p : PackagesListParams) :
    packagesListResult (backendWithoutTexts be) p = packagesListResult be p := by
  unfold packagesListResult backendWithoutTexts
  cases be.packages with
  | none => rfl
  | some mgr =>
      dsimp only [Option.map_some, packagesWithoutTexts]
      cases mgr.list p.query p.installedOnly p.page with
      | error e =>
          dsimp only [Except.mapError]
          rw [backendErrorToDiagnostic_withoutText]
      | ok page => rfl

theorem runPackageMutation_withoutTexts {core : ScopeSets} (be : SystemBackend)
    (clock : EventClock) (id : String) (jobSnap eventSnap : IdentitySnapshot)
    (subject : Subject core) (verb : PackageVerb) (name : String) (inner : RegistryInner) :
    runPackageMutation (backendWithoutTexts be) clock id jobSnap eventSnap subject verb name inner =
      runPackageMutation be clock id jobSnap eventSnap subject verb name inner := by
  unfold runPackageMutation backendWithoutTexts
  dsimp only
  cases parsePackageName name with
  | error d => rfl
  | ok name' =>
      cases be.packages with
      | none | some mgr => rfl

theorem logsQueryResult_withoutTexts (be : SystemBackend) (p : LogsQueryParams) :
    logsQueryResult (backendWithoutTexts be) p = logsQueryResult be p := by
  unfold logsQueryResult backendWithoutTexts
  dsimp only
  cases be.logs with
  | none => rfl
  | some provider =>
      dsimp only [Option.map_some, logsWithoutTexts]
      cases provider.query ⟨p.unit, p.since, p.until, p.limit, p.cursor⟩ with
      | error e =>
          dsimp only [Except.mapError]
          rw [backendErrorToDiagnostic_withoutText]
      | ok page => rfl

/-- **The end of a job** does not depend on the texts. -/
theorem run_withoutTexts (job : PackageJob) (mgr : PackageManager) (clock : EventClock) :
    job.run (packagesWithoutTexts mgr) clock = job.run mgr clock := by
  have hcall : job.verb.call (packagesWithoutTexts mgr) job.name =
      (job.verb.call mgr job.name).mapError withoutText := by
    cases job.verb <;> rfl
  unfold PackageJob.run
  rw [hcall]
  cases job.verb.call mgr job.name with
  | error e =>
      dsimp only [Except.mapError]
      rw [backendErrorToDiagnostic_withoutText, backendOutcome_withoutText]
  | ok u => rfl

/-! ## A request -/

section

variable (X : TokenCrypto) {core : ScopeSets} (env : Env)

theorem handle_withoutTexts (subject : Subject core) (resolved reported : IdentitySnapshot)
    (w : World) (r : Request) :
    handle X env.withoutTexts subject resolved reported w r =
      handle X env subject resolved reported w r := by
  cases r with
  | hostInfo => exact congrArg (w, [], Except.map _ ·) (hostInfoResult_withoutTexts env.backend)
  | servicesList p =>
      exact congrArg (w, [], Except.map _ ·) (servicesListResult_withoutTexts env.backend p)
  | servicesStatus name =>
      exact congrArg (w, [], Except.map _ ·) (serviceStatusResult_withoutTexts env.backend name)
  | serviceMutation verb name =>
      unfold handle Env.withoutTexts
      dsimp only
      rw [runServiceMutation_withoutTexts]
  | packagesList p =>
      exact congrArg (w, [], Except.map _ ·) (packagesListResult_withoutTexts env.backend p)
  | packageMutation verb name =>
      unfold handle Env.withoutTexts
      dsimp only
      rw [runPackageMutation_withoutTexts]
  | logsQuery p =>
      exact congrArg (w, [], Except.map _ ·) (logsQueryResult_withoutTexts env.backend p)
  | jobsStatus | bootstrapClaim | login | whoami | tokenCreate | tokenList | tokenRevoke => rfl

theorem spawned_withoutTexts (subject : Subject core) (resolved reported : IdentitySnapshot)
    (w : World) (r : Request) :
    spawned env.withoutTexts subject resolved reported w r =
      spawned env subject resolved reported w r := by
  cases r with
  | packageMutation verb name =>
      unfold spawned Env.withoutTexts
      dsimp only
      rw [runPackageMutation_withoutTexts]
  | _ => rfl

theorem quietReport_withoutTexts (w : World) (r : Request) :
    quietReport env.withoutTexts w r = quietReport env w r := by
  cases r <;> rfl

variable (core)

/-- **A request** is served the same. -/
theorem serve_withoutTexts (cap : Option String) (r : Request) (w : World) :
    serve X core env.withoutTexts cap r w = serve X core env cap r w := by
  unfold serve
  simp only [handle_withoutTexts, quietReport_withoutTexts]
  rfl

theorem serveSpawned_withoutTexts (cap : Option String) (r : Request) (w : World) :
    serveSpawned X core env.withoutTexts cap r w = serveSpawned X core env cap r w := by
  unfold serveSpawned
  simp only [spawned_withoutTexts, quietReport_withoutTexts]
  rfl

end

/-! ## Runs -/

/-- What others see of a daemon: the events of its audit trail, and its answers. -/
inductive Observation where
  | event (ev : AuditEvent)
  | answer (response : Option (Except Diagnostic Response))

/-- A request, or the end of a job that was spawned. -/
inductive Observed where
  | serve (env : Env) (cap : Option String) (r : Request)
  | finish (i : Nat) (mgr : PackageManager) (event : EventClock) (id : String)

namespace Observed

/-- The same, with a backend without texts. -/
def withoutTexts : Observed → Observed
  | serve env cap r => serve env.withoutTexts cap r
  | finish i mgr event id => finish i (packagesWithoutTexts mgr) event id

variable (X : TokenCrypto) (core : ScopeSets)

/-- What is left, and what is seen. -/
def step : Observed → Scene → Scene × List Observation
  | serve env cap r, s =>
      let (world, events, response) := Api.serve X core env cap r s.world
      ({ world, jobs := s.jobs ++ (serveSpawned X core env cap r s.world).toList },
        events.map .event ++ [.answer response])
  | finish i mgr event id, s =>
      match s.jobs[i]? with
      | none => (s, [])
      | some job =>
          let (ev, result) := job.run mgr event
          let jobs := s.world.jobs.storeTerminal (terminalStatus id result)
          ({ s with world := { s.world with jobs } }, [.event ev])

/-- Requests and ends of jobs, as operations on a scene. -/
def machine : Machine Observed Scene Observation Unit where
  step := step X core
  verdict := fun _ _ ↦ ()

/-- **One call** is seen the same without the texts. -/
theorem step_withoutTexts (call : Observed) (s : Scene) :
    step X core call.withoutTexts s = step X core call s := by
  cases call with
  | serve env cap r =>
      dsimp only [withoutTexts, step]
      rw [serve_withoutTexts, serveSpawned_withoutTexts]
  | finish i mgr event id =>
      dsimp only [withoutTexts, step]
      cases s.jobs[i]? with
      | none => rfl
      | some job =>
          dsimp only
          rw [run_withoutTexts]

/-- The calls unwind. -/
theorem unwinding : (machine X core).Unwinding
    (fun call call' ↦ call.withoutTexts = call'.withoutTexts) Eq where
  agree {call call' s s'} hcall hs _ := by
    show (step X core call s).1 = (step X core call' s').1
    rw [← step_withoutTexts, ← step_withoutTexts X core call', hcall, hs]
  emits {call call' s s'} hcall hs _ := by
    show (step X core call s).2 = (step X core call' s').2
    rw [← step_withoutTexts, ← step_withoutTexts X core call', hcall, hs]

end Observed

/-- **The texts of backend errors stay inside.**  Two runs of the same requests and ends of jobs,
whose backends answer the same but for the texts of their errors, are seen the same: every answer
and every event of the audit trail. -/
theorem observations_eq (X : TokenCrypto) (core : ScopeSets) (s : Scene)
    {calls calls' : List Observed}
    (hcalls : List.Forall₂ (fun call call' ↦ call.withoutTexts = call'.withoutTexts) calls calls') :
    (Observed.machine X core).trace calls s = (Observed.machine X core).trace calls' s := by
  have hverdicts : ∀ s s', (Observed.machine X core).verdicts calls s =
      (Observed.machine X core).verdicts calls' s' := by
    induction hcalls with
    | nil => exact fun _ _ ↦ rfl
    | cons _ _ ih => exact fun s s' ↦ congrArg (() :: ·) (ih _ _)
  exact (Observed.unwinding X core).trace_eq hcalls rfl (hverdicts s s)

/-- A package manager that fails with a text. -/
def failingManager (text : String) : PackageManager where
  list := fun _ _ _ ↦ .error (.internal text)
  install := fun _ ↦ .error (.internal text)
  remove := fun _ ↦ .error (.invalidInput text)

/-- A request that finds it. -/
def failingEnv (text : String) : Env :=
  { bareEnv with
    backend :=
      { host := ⟨.error (.internal text)⟩, services := none
        packages := some (failingManager text), logs := none,
        caps := ⟨false, true, false, false⟩ } }

/-- A removal ends, and its status is asked for. -/
def removalCalls (text : String) : List Observed :=
  [.finish 0 (failingManager text) ⟨1700000300, 300⟩ "0b0d1b1e-7c1c-4a52-9c0e-2f6f2f6f2f6f",
    .serve (failingEnv text) none (.jobsStatus "0b0d1b1e-7c1c-4a52-9c0e-2f6f2f6f2f6f"),
    .serve (failingEnv text) none .hostInfo]

/-- Nobody learns which of two texts there was. -/
theorem observations_eq_removal :
    (Observed.machine Token.sampleCrypto .lists).trace
        (removalCalls "dpkg: error processing package nginx") ⟨(codeScene zeroCode).world,
          [⟨.remove, "nginx", "user:admin", none⟩]⟩ =
      (Observed.machine Token.sampleCrypto .lists).trace (removalCalls "")
        ⟨(codeScene zeroCode).world, [⟨.remove, "nginx", "user:admin", none⟩]⟩ :=
  observations_eq Token.sampleCrypto .lists _
    (.cons rfl (.cons rfl (.cons rfl .nil)))

end Vaiexia.Api
