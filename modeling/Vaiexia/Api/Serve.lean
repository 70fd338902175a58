import Vaiexia.Api.AuthMethods
import Vaiexia.Api.Server
import Vaiexia.Auth.RateLimit

/-!
# Serving a request

`build_service` as a whole: a request is dispatched to the handler that is registered for its
method, and answered.  `World` is everything that handlers change, and `Env` what a request finds
besides.
-/

namespace Vaiexia.Api

open Vaiexia.Lib Vaiexia.Audit Vaiexia.Auth Vaiexia.Backend

/-! ## Requests -/

/-- A request, with parameters that deserialized. -/
inductive Request where
  | hostInfo
  | servicesList (p : ServicesListParams)
  | servicesStatus (name : String)
  | serviceMutation (verb : ServiceVerb) (name : String)
  | packagesList (p : PackagesListParams)
  | packageMutation (verb : PackageVerb) (name : String)
  | logsQuery (p : LogsQueryParams)
  | jobsStatus (jobId : String)
  | bootstrapClaim (p : ClaimParams)
  | login (p : LoginParams)
  | whoami
  | tokenCreate (p : TokenCreateParams)
  | tokenList
  | tokenRevoke (keyId : String)

/-- The method of a request. -/
def Request.method : Request → String
  | hostInfo => "server.host.info"
  | servicesList _ => "server.services.list"
  | servicesStatus _ => "server.services.status"
  | serviceMutation verb _ => verb.method
  | packagesList _ => "server.packages.list"
  | packageMutation verb _ => verb.method
  | logsQuery _ => "server.logs.query"
  | jobsStatus _ => "server.jobs.status"
  | bootstrapClaim _ => "auth.bootstrap.claim"
  | login _ => "auth.login"
  | whoami => "auth.whoami"
  | tokenCreate _ => "auth.token.create"
  | tokenList => "auth.token.list"
  | tokenRevoke _ => "auth.token.revoke"

/-- The responses of the handlers. -/
inductive Response where
  | hostInfo (dto : HostInfoDto)
  | services (page : PageDto UnitStatus)
  | service (dto : UnitDetailDto)
  | serviceOutcome (dto : ServiceOutcomeDto)
  | packages (page : PageDto PackageInfo)
  | jobStart (dto : JobStartDto)
  | logs (page : PageDto LogEntry)
  | job (status : JobStatus)
  | claimed (resp : BootstrapClaimResponse)
  | loggedIn (resp : LoginResponse)
  | whoami (resp : WhoamiResponse)
  | created (resp : TokenCreateResponse)
  | tokens (tokens : List TokenMetadata)
  | revoked

/-- What handlers change. -/
structure World where
  session : Session
  buckets : HashMap String Bucket
  jobs : RegistryInner

/-- The store of a world. -/
def World.store (w : World) : FileStore := w.session.store

/-- Another store in its place. -/
def World.setStore (st : FileStore) (w : World) : World :=
  { w with session := { w.session with store := st } }

/-- What a request finds: readings of clocks, random bytes, failures, and the answers of the
backend. -/
structure Env where
  clock : Clock
  guardNow : UInt64
  event : EventClock
  readings : Readings
  bytes : TokenBytes
  fault : Option StoreError
  claim : ClaimEnv
  limiterNow : Nat
  elapsed : Bool
  jobId : String
  backend : SystemBackend
  limiter : RateLimiter
  verifyPassword : String → String → Except String Bool
  debugStrings : List String → String

section Serve

variable (X : TokenCrypto) (core : ScopeSets) (env : Env)

/-- The handler of `auth.login`: the limiter is asked first, and reset after a success. -/
def loginLimited (p : LoginParams) (w : World) :
    World × List AuditEvent × Except Diagnostic LoginResponse :=
  let (buckets, checked) := env.limiter.check env.limiterNow p.name w.buckets
  match login X env.verifyPassword (checked.mapError RateLimited.retryAfterSecs) env.readings
      env.bytes env.fault p w.store.snap w.store with
  | (st, events, .ok resp) =>
      ({ w with buckets := RateLimiter.reset p.name buckets }.setStore st, events, .ok resp)
  | (st, events, .error d) => ({ w with buckets }.setStore st, events, .error d)

/-- The body of the handler of a request.  Handlers that look up the account of their caller do so
in the snapshot `resolved`, and for the event that they emit in the end in `reported`. -/
def handle {core : ScopeSets} (subject : Subject core) (resolved reported : IdentitySnapshot)
    (w : World) : Request → World × List AuditEvent × Except Diagnostic Response
  | .hostInfo => (w, [], (hostInfoResult env.backend).map .hostInfo)
  | .servicesList p => (w, [], (servicesListResult env.backend p).map .services)
  | .servicesStatus name => (w, [], (serviceStatusResult env.backend name).map .service)
  | .serviceMutation verb name =>
      let (events, result) :=
        runServiceMutation env.backend env.event env.elapsed reported subject verb name
      (w, events, result.map .serviceOutcome)
  | .packagesList p => (w, [], (packagesListResult env.backend p).map .packages)
  | .packageMutation verb name =>
      let (jobs, _, events, result) := runPackageMutation env.backend env.event env.jobId resolved
        reported subject verb name w.jobs
      ({ w with jobs }, events, result.map .jobStart)
  | .logsQuery p => (w, [], (logsQueryResult env.backend p).map .logs)
  | .jobsStatus jobId => (w, [], (jobsStatusResult w.jobs jobId).map .job)
  | .bootstrapClaim p =>
      let (session, events, result) :=
        bootstrapClaim X env.debugStrings env.event.now env.claim p w.session
      ({ w with session }, events, result.map .claimed)
  | .login p =>
      let (w, events, result) := loginLimited X env p w
      (w, events, result.map .loggedIn)
  | .whoami => (w, [], .ok (.whoami (Api.whoami subject resolved)))
  | .tokenCreate p =>
      let (st, events, result) := tokenCreate X env.debugStrings env.readings env.bytes env.fault p
        subject resolved w.store
      (w.setStore st, events, result.map .created)
  | .tokenList => (w, [], .ok (.tokens (Api.tokenList resolved)))
  | .tokenRevoke keyId =>
      let (st, events, result) := tokenRevoke env.event.now env.event.latencyUs env.fault keyId
        subject reported w.store
      (w.setStore st, events, result.map fun _ ↦ .revoked)

/-- What a handler reads for its last event if nothing else changes the store. -/
def quietReport (w : World) : Request → IdentitySnapshot
  | .tokenRevoke keyId => (w.store.revokeCapability env.fault keyId).1.snap
  | _ => w.store.snap

/-- A request from the verifier to the answer, with nothing else going on.  Nothing is answered here
to a method without a handler that the verifier lets through. -/
def serve (cap : Option String) (r : Request) (w : World) :
    World × List AuditEvent × Option (Except Diagnostic Response) :=
  match service.find? fun reg ↦ reg.method == r.method with
  | none =>
      match verify X core env.clock cap r.method w.store with
      | (st, events, .error d) => (w.setStore st, events, some (.error d))
      | (st, events, .ok _) => (w.setStore st, events, none)
  | some reg =>
      match dispatch X core env.clock env.guardNow cap reg w.store with
      | (st, events, .error d) => (w.setStore st, events, some (.error d))
      | (st, events, .ok subject) =>
          let w := w.setStore st
          let (w, more, result) := handle X env subject w.store.snap (quietReport env w r) w r
          (w, events ++ more, some result)

end Serve

/-- Every request has a handler. -/
theorem exists_registered (r : Request) :
    ∃ reg ∈ service, reg.method = r.method ∧
      (service.find? fun reg ↦ reg.method == r.method) = some reg := by
  have hall : ∀ m ∈ registrations.map Prod.fst,
      (service.find? fun reg ↦ reg.method == m).isSome = true := by decide
  have hfound : (service.find? fun reg ↦ reg.method == r.method).isSome = true := by
    apply hall
    cases r with
    | serviceMutation verb =>
        cases verb <;> simp [Request.method, ServiceVerb.method, registrations]
    | packageMutation verb =>
        cases verb <;> simp [Request.method, PackageVerb.method, registrations]
    | _ => simp [Request.method, registrations]
  obtain ⟨reg, hreg⟩ := Option.isSome_iff_exists.mp hfound
  exact ⟨reg, List.mem_of_find?_eq_some hreg, by simpa using List.find?_some hreg, hreg⟩

/-- A request on a host without service manager, packages and logs. -/
def bareEnv : Env where
  clock := ⟨1700000000, 1700000000, 1700000000⟩
  guardNow := 1700000000
  event := ⟨1700000000, 350⟩
  readings := ⟨1700000000, 1700000000, 1700000000, 350⟩
  bytes := ⟨List.replicate 10 0xff, List.replicate 32 0xff⟩
  fault := none
  claim := minuteLater
  limiterNow := 0
  elapsed := false
  jobId := "0b0d1b1e-7c1c-4a52-9c0e-2f6f2f6f2f6f"
  backend :=
    { host := ⟨.error .unavailable⟩, services := none, packages := none, logs := none
      caps := ⟨false, false, false, false⟩ }
  limiter := .new 5 60000000000
  verifyPassword := fun _ _ ↦ .ok false
  debugStrings := fun _ ↦ ""

end Vaiexia.Api
