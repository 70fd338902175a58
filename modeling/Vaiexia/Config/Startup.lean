import Mathlib.Data.List.Forall2
import Vaiexia.Audit.Event
import Vaiexia.Backend.Types
import Vaiexia.Lib.Calls

/-!
# The start of the daemon

`config/model.rs` and `validate` of `config/load.rs`, `start_listeners` of `transport.rs`,
`assemble` of `backend/assemble.rs`, and `run` and `check_config` of `lib.rs`, in
`crates/vaiexia-server/src`.  They are programs that call their environment: files, sockets, probes,
the audit trail.

`startup` says that the daemon fails closed.  Nothing listens before the configuration is validated,
the audit writer was started and the store is open; each listener is of the kind that is configured,
with its own certificate; the daemon is ready when all of them listen and the audit queue was told
so; and a configuration that is valid never fails for a reason that lies in it.

The audit trail is the exception: the daemon does not wait for the writer's thread, and one that
cannot open its file drops what it is told, and nothing else fails.
-/

namespace Vaiexia.Config

open Vaiexia.Lib Vaiexia.Audit Vaiexia.Backend

/-! ## The configuration -/

/-- `ListenerKind`. -/
inductive ListenerKind where
  | http | https | obfsTcp | obfsUdp
deriving DecidableEq, Repr

/-- `Listener`. -/
structure Listener where
  kind : ListenerKind
  bind : String
  cert : Option String
  key : Option String
deriving DecidableEq

/-- `BackendMode`. -/
inductive BackendMode where
  | auto | mock | real
deriving DecidableEq, Repr

/-- `AuditCfg`. -/
structure AuditCfg where
  enabled : Bool
  dir : Option String
  maxBytes : UInt64
  generations : UInt8
  queue : UInt64

/-- The default of `AuditCfg`. -/
def AuditCfg.default : AuditCfg where
  enabled := true
  dir := none
  maxBytes := 8 * 1024 * 1024
  generations := 3
  queue := 1024

/-- `ServerConfig`, with the mode of its `BackendCfg`. -/
structure ServerConfig where
  stateDir : String
  listeners : List Listener
  mode : BackendMode
  audit : AuditCfg

/-- The default of `ServerConfig`. -/
def ServerConfig.default : ServerConfig where
  stateDir := "/var/lib/vaiexia"
  listeners := [⟨.http, "127.0.0.1:7443", none, none⟩]
  mode := .auto
  audit := .default

/-! ## Errors -/

/-- `ConfigError`. -/
inductive ConfigError where
  | empty
  | obfsDeferred
  | listener (index : Nat) (bind reason : String)
  | audit (reason : String)
  | figment (text : String)
deriving DecidableEq

/-- `TransportError`. -/
inductive TransportError where
  | noListeners
  | tls (text : String)
  | obfsDeferred
  | core (text : String)
deriving DecidableEq

/-- The errors of `run`. -/
inductive RunError where
  | config (e : ConfigError)
  | io (text : String)
  | store (text : String)
  | unsupportedPlatform
  | transport (e : TransportError)
deriving DecidableEq

/-! ## Calls -/

/-- An event about the daemon itself. -/
structure Notice where
  kind : AuditKind
  decision : AuditDecision
  detail : String

/-- The event of a notice. -/
def Notice.event (n : Notice) (now : UInt64) : AuditEvent :=
  (AuditEvent.new now n.kind n.decision "system").withDetail n.detail

/-- What the start of the daemon calls. -/
inductive StartupCall where
  | isFile (path : String)
  | createDirAll (path : String)
  /-- The queue, which must not be longer than a channel may be, and the thread of the audit writer:
  it opens the file on its own, and if it cannot it only drains the queue. -/
  | spawnWriter (queue : UInt64) (path : String) (maxBytes : UInt64) (generations : UInt8)
  | emit (n : Notice)
  | openStore (path : String)
  | beginBootstrap (empty : Bool) (path : String)
  | probeServices | probeLogs | probePackages
  | read (path : String)
  | serve (be : SystemBackend) (bind : String)
  | serveTls (be : SystemBackend) (bind : String) (cert key : Bytes)
  | ready | shutdownSignal | stopping
  | shutdown (addr : String)
  | shutdownAudit

/-- What a call is answered with.  A listener has the address that it listens on. -/
def StartupCall.Answer : StartupCall → Type
  | isFile _ => Bool
  | createDirAll _ => Except String Unit
  | openStore _ => Except String Bool
  | probeServices => Option ServiceManager
  | probeLogs => Option LogProvider
  | probePackages => Option PackageManager
  | read _ => Except String Bytes
  | serve .. | serveTls .. => Except String String
  | _ => Unit

/-- A program of the start. -/
abbrev Startup (α : Type) : Type := Calls StartupCall.Answer RunError α

/-- What was called, with the answers. -/
abbrev Trace : Type := Calls.History StartupCall.Answer

/-- A call. -/
def perform (c : StartupCall) : Startup c.Answer := Calls.perform c

/-- A call that may fail. -/
def attempt {δ α : Type} (f : δ → RunError) (p : Startup (Except δ α)) : Startup α :=
  p.bind (Calls.ofExcept f)

/-! ## Validation -/

/-- The error of a listener. -/
def listenerError (index : Nat) (l : Listener) (reason : String) : RunError :=
  .config (.listener index l.bind reason)

/-- A file that has to be there. -/
def requireFile (index : Nat) (l : Listener) (what path : String) : Startup Unit := do
  let there : Bool ← perform (.isFile path)
  if there then pure () else .throw (listenerError index l s!"{what} not readable: {path}")

/-- The arm of `validate` for a listener, with its warnings.  `loopback` parses a socket address and
says whether it is a loopback one. -/
def validateListener (loopback : String → Option Bool) (l : Listener × Nat) :
    Startup (List String) :=
  match l.1.kind with
  | .obfsTcp | .obfsUdp => .throw (.config .obfsDeferred)
  | .https =>
      match l.1.cert, l.1.key with
      | some cert, some key => do
          requireFile l.2 l.1 "cert" cert
          requireFile l.2 l.1 "key" key
          pure []
      | _, _ => .throw (listenerError l.2 l.1 "https listener requires cert and key paths")
  | .http =>
      match loopback l.1.bind with
      | some false =>
          pure [s!"http listener on non-loopback address {l.1.bind} — consider using https"]
      | _ => pure []

/-- The part of `validate` for the audit trail, with its warnings. -/
def validateAudit (audit : AuditCfg) : Startup (List String) :=
  if audit.enabled then
    if audit.generations < 1 then .throw (.config (.audit "generations must be >= 1"))
    else if audit.maxBytes < 64 * 1024 then
      .throw (.config (.audit "max_bytes must be >= 65536 (64 KiB)"))
    else if audit.queue < 64 then .throw (.config (.audit "queue must be >= 64"))
    else pure []
  else pure ["audit disabled — every auth/mutation decision will be unrecorded"]

/-- `validate`. -/
def validate (loopback : String → Option Bool) (cfg : ServerConfig) : Startup (List String) :=
  if cfg.listeners.isEmpty then .throw (.config .empty)
  else do
    let warnings ← .each (validateListener loopback) cfg.listeners.zipIdx
    let more ← validateAudit cfg.audit
    pure (warnings.flatten ++ more)

/-- `check_config`, of a configuration that was loaded. -/
def checkConfig (loopback : String → Option Bool) (cfg : ServerConfig) : Startup (List String) :=
  validate loopback cfg

/-! ## The backend -/

/-- What the binary is built for and with. -/
structure Build where
  linux : Bool
  tls : Bool
  host : HostInfoProvider
  mockHost : HostInfoProvider
  mockServices : ServiceManager
  mockPackages : PackageManager
  mockLogs : LogProvider

/-- `derive_capabilities`. -/
def deriveCapabilities (services packages logs : Bool) : BackendCapabilities where
  services := services
  packages := packages
  metrics := true
  logs := logs

/-- `SystemBackend::from_mock`. -/
def fromMock (build : Build) : SystemBackend where
  host := build.mockHost
  services := some build.mockServices
  packages := some build.mockPackages
  logs := some build.mockLogs
  caps := deriveCapabilities true true true

/-- The backend of providers that were found. -/
def nativeBackend (build : Build) (services : Option ServiceManager)
    (packages : Option PackageManager) (logs : Option LogProvider) : SystemBackend where
  host := build.host
  services := services
  packages := packages
  logs := logs
  caps := deriveCapabilities services.isSome packages.isSome logs.isSome

/-- `assemble_linux_providers`, with the backend that is made of them. -/
def assembleLinux (build : Build) : Startup SystemBackend := do
  let services : Option ServiceManager ← perform .probeServices
  let logs : Option LogProvider ← perform .probeLogs
  let packages : Option PackageManager ← perform .probePackages
  pure (nativeBackend build services packages logs)

/-- `assemble`. -/
def assemble (build : Build) : BackendMode → Startup SystemBackend
  | .mock => pure (fromMock build)
  | .auto => if build.linux then assembleLinux build else pure (nativeBackend build none none none)
  | .real => if build.linux then assembleLinux build else .throw .unsupportedPlatform

/-! ## Listeners -/

/-- `ListenerHandle`: the address. -/
structure ListenerHandle where
  tls : Bool
  addr : String
deriving DecidableEq

/-- The arm of `start_listeners` for a listener. -/
def startListener (build : Build) (be : SystemBackend) (l : Listener) : Startup ListenerHandle :=
  match l.kind with
  | .http => do
      let addr : String ←
        attempt (fun e ↦ .transport (.core e)) (perform (.serve be l.bind))
      pure ⟨false, addr⟩
  | .https =>
      if build.tls then
        match l.cert with
        | none => .throw (.transport (.tls "https listener missing cert path"))
        | some certPath =>
        match l.key with
        | none => .throw (.transport (.tls "https listener missing key path"))
        | some keyPath => do
            let cert : Bytes ← attempt (fun e ↦ .transport (.tls s!"read cert {certPath}: {e}"))
              (perform (.read certPath))
            let key : Bytes ← attempt (fun e ↦ .transport (.tls s!"read key {keyPath}: {e}"))
              (perform (.read keyPath))
            let addr : String ← attempt (fun e ↦ .transport (.tls e))
              (perform (.serveTls be l.bind cert key))
            pure ⟨true, addr⟩
      else .throw (.transport (.tls "https listener requires building with the `tls` feature"))
  | .obfsTcp | .obfsUdp => .throw (.transport .obfsDeferred)

/-- `start_listeners`. -/
def startListeners (build : Build) (be : SystemBackend) (cfg : ServerConfig) :
    Startup (List ListenerHandle) :=
  if cfg.listeners.isEmpty then .throw (.transport .noListeners)
  else .each (startListener build be) cfg.listeners

/-! ## The run -/

/-- `Path::join`, of the name of a file. -/
def joinPath (dir file : String) : String :=
  match dir.toList.getLast? with
  | none | some '/' => dir ++ file
  | some _ => dir ++ "/" ++ file

/-- A notice to the audit sink, which may be none. -/
def emit (sink : Bool) (n : Notice) : Startup Unit :=
  match sink with
  | true => perform (.emit n)
  | false => pure ()

/-- The notice about the configuration. -/
def configNotice (configPath : Option String) (warnings : List String) : Notice where
  kind := .config
  decision := .ok
  detail :=
    let path := configPath.getD "<defaults>"
    s!"config_path={path} warnings={warnings.length}"

/-- The notices about providers that are absent. -/
def degradedNotices (be : SystemBackend) : List Notice :=
  (if be.services.isNone then [⟨.degraded, .err, "provider=services reason=unavailable"⟩]
      else []) ++
    (if be.packages.isNone then [⟨.degraded, .err, "provider=packages reason=unavailable"⟩]
      else []) ++
    if be.logs.isNone then [⟨.degraded, .err, "provider=logs reason=unavailable"⟩] else []

/-- The notices about a listener. -/
def listenerNotice (what : String) (h : ListenerHandle) : Notice where
  kind := .listener
  decision := .ok
  detail := s!"addr={h.addr} event={what}"

/-- The notices about the daemon. -/
def lifecycleNotice (detail : String) : Notice where
  kind := .lifecycle
  decision := .ok
  detail := detail

/-- The audit sink of `run`. -/
def openAudit (cfg : ServerConfig) : Startup Bool :=
  if cfg.audit.enabled then do
    let dir := cfg.audit.dir.getD (joinPath cfg.stateDir "audit")
    attempt .io (perform (.createDirAll dir))
    let _ : Unit ← perform (.spawnWriter cfg.audit.queue (joinPath dir "audit.jsonl")
      cfg.audit.maxBytes cfg.audit.generations)
    pure true
  else pure false

/-- `run`, of a configuration that was loaded. -/
def run (build : Build) (loopback : String → Option Bool) (configPath : Option String)
    (cfg : ServerConfig) : Startup Unit := do
  let warnings ← validate loopback cfg
  attempt .io (perform (.createDirAll cfg.stateDir))
  let sink ← openAudit cfg
  emit sink (configNotice configPath warnings)
  let empty : Bool ← attempt .store (perform (.openStore (joinPath cfg.stateDir "identity.json")))
  let _ : Unit ← perform (.beginBootstrap empty (joinPath cfg.stateDir "bootstrap.code"))
  let be ← assemble build cfg.mode
  let _ ← .each (emit sink) (degradedNotices be)
  let handles ← startListeners build be cfg
  let _ ← .each (fun h ↦ emit sink (listenerNotice "start" h)) handles
  emit sink (lifecycleNotice "daemon started")
  let _ : Unit ← perform .ready
  let _ : Unit ← perform .shutdownSignal
  let _ : Unit ← perform .stopping
  emit sink (lifecycleNotice "shutting down")
  let _ ← .each (fun h ↦ emit sink (listenerNotice "stop" h)) handles
  let _ : List Unit ← .each (fun h ↦ perform (.shutdown h.addr)) handles
  perform .shutdownAudit

/-! ## What is to be seen -/

/-- The notices of a trace. -/
def noticesOf (t : Trace) : List Notice :=
  t.filterMap fun
    | ⟨.emit n, _⟩ => some n
    | _ => none

/-- The listeners that were opened. -/
def handlesOf (t : Trace) : List ListenerHandle :=
  t.filterMap fun
    | ⟨.serve _ _, .ok addr⟩ => some ⟨false, addr⟩
    | ⟨.serveTls _ _ _ _, .ok addr⟩ => some ⟨true, addr⟩
    | _ => none

/-- A configuration that `validate` accepts if the files are there. -/
structure WellFormed (cfg : ServerConfig) : Prop where
  nonempty : cfg.listeners ≠ []
  listeners : ∀ l ∈ cfg.listeners,
    l.kind = .http ∨ l.kind = .https ∧ l.cert.isSome = true ∧ l.key.isSome = true
  audit : cfg.audit.enabled = true →
    1 ≤ cfg.audit.generations ∧ 64 * 1024 ≤ cfg.audit.maxBytes ∧ 64 ≤ cfg.audit.queue

/-- What `validate` has accepted: a configuration that is well-formed, and whose certificates and
keys were files when it asked. -/
structure Accepted (cfg : ServerConfig) (t : Trace) : Prop extends WellFormed cfg where
  files : ∀ l ∈ cfg.listeners, l.kind = .https →
    ∀ path, l.cert = some path ∨ l.key = some path → ⟨.isFile path, true⟩ ∈ t

/-- The backend that is assembled. -/
inductive Assembled (build : Build) (mode : BackendMode) (t : Trace) : SystemBackend → Prop
  | mock (h : mode = .mock) : Assembled build mode t (fromMock build)
  | bare (h : mode = .auto) (hlinux : build.linux = false) :
      Assembled build mode t (nativeBackend build none none none)
  | native (h : mode ≠ .mock) (hlinux : build.linux = true) {services : Option ServiceManager}
      {packages : Option PackageManager} {logs : Option LogProvider}
      (hservices : ⟨.probeServices, services⟩ ∈ t) (hpackages : ⟨.probePackages, packages⟩ ∈ t)
      (hlogs : ⟨.probeLogs, logs⟩ ∈ t) :
      Assembled build mode t (nativeBackend build services packages logs)

/-- What is there before anything listens. -/
structure Ground (build : Build) (cfg : ServerConfig) (t : Trace) (be : SystemBackend) : Prop where
  accepted : Accepted cfg t
  writer : cfg.audit.enabled = true →
    ∃ path, ⟨.spawnWriter cfg.audit.queue path cfg.audit.maxBytes cfg.audit.generations, ()⟩ ∈ t
  store : ∃ empty, ⟨.openStore (joinPath cfg.stateDir "identity.json"), .ok empty⟩ ∈ t ∧
    ⟨.beginBootstrap empty (joinPath cfg.stateDir "bootstrap.code"), ()⟩ ∈ t
  backend : Assembled build cfg.mode t be

/-- The same, after notices of it to the audit queue, and what else. -/
structure Prepared (build : Build) (configPath : Option String) (cfg : ServerConfig) (t : Trace)
    (be : SystemBackend) (more : List Notice) : Prop extends Ground build cfg t be where
  notices : cfg.audit.enabled = true → ∃ warnings,
    noticesOf t = configNotice configPath warnings :: degradedNotices be ++ more

/-- Which calls are allowed after others. -/
def Allowed (build : Build) (configPath : Option String) (cfg : ServerConfig) (t : Trace) :
    StartupCall → Prop
  | .emit _ => cfg.audit.enabled = true ∧ ∃ path,
      ⟨.spawnWriter cfg.audit.queue path cfg.audit.maxBytes cfg.audit.generations, ()⟩ ∈ t
  | .serve be bind => Prepared build configPath cfg t be [] ∧
      ∃ l, cfg.listeners[(handlesOf t).length]? = some l ∧ l.kind = .http ∧ l.bind = bind
  | .serveTls be bind cert key => Prepared build configPath cfg t be [] ∧
      ∃ l certPath keyPath, cfg.listeners[(handlesOf t).length]? = some l ∧ l.kind = .https ∧
        l.bind = bind ∧ l.cert = some certPath ∧ l.key = some keyPath ∧
        ⟨.read certPath, .ok cert⟩ ∈ t ∧ ⟨.read keyPath, .ok key⟩ ∈ t
  | .ready => ∃ be, Prepared build configPath cfg t be
        ((handlesOf t).map (listenerNotice "start") ++ [lifecycleNotice "daemon started"]) ∧
      List.Forall₂ (fun l (h : ListenerHandle) ↦ l.kind = if h.tls then .https else .http)
        cfg.listeners (handlesOf t)
  | _ => True

/-- The causes of failures. -/
def Caused (build : Build) (cfg : ServerConfig) (t : Trace) : RunError → Prop
  | .config _ => WellFormed cfg → ∃ path, ⟨.isFile path, false⟩ ∈ t
  | .io text => ∃ path, ⟨.createDirAll path, .error text⟩ ∈ t
  | .store text => ∃ path, ⟨.openStore path, .error text⟩ ∈ t
  | .unsupportedPlatform => cfg.mode = .real ∧ build.linux = false
  | .transport .noListeners | .transport .obfsDeferred => False
  | .transport (.core text) => ∃ be bind, ⟨.serve be bind, .error text⟩ ∈ t
  | .transport (.tls _) => build.tls = false ∨ (∃ path text, ⟨.read path, .error text⟩ ∈ t) ∨
      ∃ be bind cert key text, ⟨.serveTls be bind cert key, .error text⟩ ∈ t

/-- What the start has to keep to. -/
def policy (build : Build) (configPath : Option String) (cfg : ServerConfig) :
    Calls.Policy StartupCall.Answer RunError where
  allowed := Allowed build configPath cfg
  caused := Caused build cfg

/-! ## Stages of the start -/

section

variable {build : Build} {configPath : Option String} {cfg : ServerConfig} {t : Trace}
  {ns : List Notice} {hs : List ListenerHandle} {loopback : String → Option Bool}

/-- The notices and the listeners so far. -/
structure Seen (cfg : ServerConfig) (ns : List Notice) (hs : List ListenerHandle) (t : Trace) :
    Prop where
  notices : cfg.audit.enabled = true → noticesOf t = ns
  handles : handlesOf t = hs

theorem noticesOf_append (t t' : Trace) : noticesOf (t ++ t') = noticesOf t ++ noticesOf t' :=
  List.filterMap_append

theorem handlesOf_append (t t' : Trace) : handlesOf (t ++ t') = handlesOf t ++ handlesOf t' :=
  List.filterMap_append

/-- A call that others do not see. -/
theorem Seen.quiet (h : Seen cfg ns hs t) {e : Σ c, StartupCall.Answer c}
    (hnotices : noticesOf [e] = []) (hhandles : handlesOf [e] = []) :
    Seen cfg ns hs (t ++ [e]) := by
  refine ⟨fun henabled ↦ ?_, ?_⟩
  · rw [noticesOf_append, hnotices, List.append_nil, h.notices henabled]
  · rw [handlesOf_append, hhandles, List.append_nil, h.handles]

theorem wp_attempt {G : Calls.Policy StartupCall.Answer RunError} {δ α : Type} {f : δ → RunError}
    {p : Startup (Except δ α)} {Q : α → Trace → Prop}
    (hp : p.wp G (fun x t ↦ (∀ a, x = .ok a → Q a t) ∧ ∀ d, x = .error d → G.caused t (f d)) t) :
    (attempt f p).wp G Q t :=
  Calls.wp_bind.mpr (Calls.wp_mono hp fun _ _ hx ↦ Calls.wp_ofExcept hx.1 hx.2)

theorem wp_requireFile {Q : Unit → Trace → Prop} {path : String} (index : Nat) (l : Listener)
    (what : String) (h : Q () (t ++ [⟨.isFile path, true⟩])) :
    (requireFile index l what path).wp (policy build configPath cfg) Q t := by
  refine Calls.wp_bind.mpr ⟨trivial, fun there ↦ ?_⟩
  cases there with
  | true => exact h
  | false => exact fun _ ↦ ⟨path, List.mem_append_right _ List.mem_cons_self⟩

/-- A listener that `validate` accepts. -/
structure Listener.Valid (l : Listener) (t : Trace) : Prop where
  kind : l.kind = .http ∨ l.kind = .https ∧ l.cert.isSome = true ∧ l.key.isSome = true
  files : l.kind = .https →
    ∀ path, l.cert = some path ∨ l.key = some path → ⟨.isFile path, true⟩ ∈ t

theorem Listener.Valid.mono {l : Listener} {t' : Trace} (h : l.Valid t) (hle : t <+: t') :
    l.Valid t' := ⟨h.kind, fun hkind path hpath ↦ hle.subset (h.files hkind path hpath)⟩

theorem Accepted.mono {t' : Trace} (h : Accepted cfg t) (hle : t <+: t') : Accepted cfg t' :=
  ⟨h.toWellFormed, fun l hl hkind path hpath ↦ hle.subset (h.files l hl hkind path hpath)⟩

theorem wp_validateListener {l : Listener × Nat} (hl : l.1 ∈ cfg.listeners)
    (hseen : Seen cfg ns hs t) :
    (validateListener loopback l).wp (policy build configPath cfg)
      (fun _ t ↦ Seen cfg ns hs t ∧ l.1.Valid t) t := by
  have hcaused (hnot : ¬ (l.1.kind = .http ∨
      l.1.kind = .https ∧ l.1.cert.isSome = true ∧ l.1.key.isSome = true)) :
      WellFormed cfg → ∃ path, ⟨.isFile path, false⟩ ∈ t :=
    fun h ↦ absurd (h.listeners l.1 hl) hnot
  unfold validateListener
  split
  · rename_i hkind
    refine hcaused ?_
    rintro (h | ⟨h, -⟩) <;> cases hkind.symm.trans h
  · rename_i hkind
    refine hcaused ?_
    rintro (h | ⟨h, -⟩) <;> cases hkind.symm.trans h
  · rename_i hkind
    split
    · rename_i cert key hcert hkey
      refine Calls.wp_bind.mpr (wp_requireFile _ _ _ (Calls.wp_bind.mpr (wp_requireFile _ _ _ ?_)))
      refine ⟨(hseen.quiet rfl rfl).quiet rfl rfl,
        .inr ⟨hkind, by rw [hcert]; rfl, by rw [hkey]; rfl⟩, fun _ path hpath ↦ ?_⟩
      rcases hpath with hpath | hpath
      · obtain rfl := Option.some.inj (hcert.symm.trans hpath)
        simp
      · obtain rfl := Option.some.inj (hkey.symm.trans hpath)
        simp
    · rename_i hnone
      refine hcaused ?_
      rintro (h | ⟨-, hcert, hkey⟩)
      · cases hkind.symm.trans h
      · obtain ⟨cert, hcert⟩ := Option.isSome_iff_exists.mp hcert
        obtain ⟨key, hkey⟩ := Option.isSome_iff_exists.mp hkey
        exact hnone cert key hcert hkey
  · rename_i hkind
    split <;> exact ⟨hseen, .inl hkind, fun hhttps ↦ by cases hkind.symm.trans hhttps⟩

theorem wp_validateAudit (hseen : Seen cfg ns hs t) :
    (validateAudit cfg.audit).wp (policy build configPath cfg)
      (fun _ t ↦ Seen cfg ns hs t ∧ (cfg.audit.enabled = true → 1 ≤ cfg.audit.generations ∧
        64 * 1024 ≤ cfg.audit.maxBytes ∧ 64 ≤ cfg.audit.queue)) t := by
  unfold validateAudit
  by_cases henabled : cfg.audit.enabled = true
  · rw [if_pos henabled]
    split
    · rename_i hlt
      exact fun h ↦ absurd hlt (UInt8.not_lt.mpr (h.audit henabled).1)
    · rename_i hgenerations
      split
      · rename_i hlt
        exact fun h ↦ absurd hlt (UInt64.not_lt.mpr (h.audit henabled).2.1)
      · rename_i hbytes
        split
        · rename_i hlt
          exact fun h ↦ absurd hlt (UInt64.not_lt.mpr (h.audit henabled).2.2)
        · rename_i hqueue
          exact ⟨hseen, fun _ ↦ ⟨UInt8.not_lt.mp hgenerations, UInt64.not_lt.mp hbytes,
            UInt64.not_lt.mp hqueue⟩⟩
  · rw [if_neg henabled]
    exact ⟨hseen, fun h ↦ absurd h henabled⟩

/-- **Validation** calls for files only, and accepts what is well-formed. -/
theorem wp_validate (hseen : Seen cfg ns hs t) :
    (validate loopback cfg).wp (policy build configPath cfg)
      (fun _ t ↦ Seen cfg ns hs t ∧ Accepted cfg t) t := by
  unfold validate
  split
  · rename_i hempty
    exact fun h ↦ absurd (List.isEmpty_iff.mp hempty) h.nonempty
  · rename_i hnonempty
    refine Calls.wp_bind.mpr (Calls.wp_mono (Calls.wp_each
      (fun done _ t ↦ Seen cfg ns hs t ∧ ∀ l ∈ done, l.1.Valid t)
      ⟨hseen, fun _ hl ↦ absurd hl List.not_mem_nil⟩ ?_) fun warnings t hvalid ↦ ?_)
    · rintro done l rest _ t hsplit ⟨hseen, hdone⟩
      have hl : l ∈ cfg.listeners.zipIdx := by
        rw [hsplit]
        exact List.mem_append_right done List.mem_cons_self
      refine Calls.wp_mono (Calls.wp_grows (wp_validateListener (List.fst_mem_of_mem_zipIdx hl)
        hseen)) fun _ t ⟨h, hle⟩ ↦ ⟨h.1, fun l' hl' ↦ ?_⟩
      rcases List.mem_append.mp hl' with hl' | hl'
      · exact (hdone l' hl').mono hle
      · obtain rfl := List.mem_singleton.mp hl'
        exact h.2
    · refine Calls.wp_bind.mpr (Calls.wp_mono (Calls.wp_grows (wp_validateAudit hvalid.1))
        fun more t ⟨haudit, hle⟩ ↦ ?_)
      have hlisteners : ∀ l ∈ cfg.listeners, l.Valid t := by
        intro l hl
        obtain ⟨i, hi⟩ := List.getElem?_of_mem hl
        exact (hvalid.2 (l, i) (List.mem_zipIdx_iff_getElem?.mpr hi)).mono hle
      exact ⟨haudit.1, ⟨fun hnil ↦ hnonempty (List.isEmpty_iff.mpr hnil),
        fun l hl ↦ (hlisteners l hl).kind, haudit.2⟩, fun l hl ↦ (hlisteners l hl).files⟩

/-- The writer of the trail is there. -/
def Writes (cfg : ServerConfig) (t : Trace) : Prop :=
  cfg.audit.enabled = true →
    ∃ path, ⟨.spawnWriter cfg.audit.queue path cfg.audit.maxBytes cfg.audit.generations, ()⟩ ∈ t

theorem Writes.mono {t' : Trace} (h : Writes cfg t) (hle : t <+: t') : Writes cfg t' :=
  fun henabled ↦ (h henabled).imp fun _ hmem ↦ hle.subset hmem

theorem wp_openAudit (hseen : Seen cfg ns hs t) :
    (openAudit cfg).wp (policy build configPath cfg)
      (fun sink t ↦ sink = cfg.audit.enabled ∧ Seen cfg ns hs t ∧ Writes cfg t) t := by
  unfold openAudit
  by_cases henabled : cfg.audit.enabled = true
  · rw [if_pos henabled]
    refine Calls.wp_bind.mpr
      (wp_attempt ⟨trivial, fun answer ↦ ⟨fun _ _ ↦ ?_, fun text htext ↦ ?_⟩⟩)
    · refine Calls.wp_bind.mpr ⟨trivial, fun _ ↦ ⟨henabled.symm,
        (hseen.quiet rfl rfl).quiet rfl rfl,
        fun _ ↦ ⟨_, List.mem_append_right _ List.mem_cons_self⟩⟩⟩
    · subst htext
      exact ⟨_, List.mem_append_right _ List.mem_cons_self⟩
  · rw [if_neg henabled]
    exact ⟨(Bool.not_eq_true _ ▸ henabled : cfg.audit.enabled = false).symm, hseen,
      fun h ↦ absurd h henabled⟩

/-- A notice is seen, if there is a trail. -/
theorem wp_emit (hseen : Seen cfg ns hs t) (hwrites : Writes cfg t) (n : Notice) :
    (emit cfg.audit.enabled n).wp (policy build configPath cfg)
      (fun _ t ↦ Seen cfg (ns ++ [n]) hs t ∧ Writes cfg t) t := by
  cases henabled : cfg.audit.enabled with
  | true =>
      refine ⟨⟨henabled, hwrites henabled⟩, fun _ ↦ ⟨⟨fun _ ↦ ?_, ?_⟩,
        hwrites.mono (List.prefix_append _ _)⟩⟩
      · rw [noticesOf_append, hseen.notices henabled]
        rfl
      · rw [handlesOf_append, hseen.handles]
        exact List.append_nil hs
  | false =>
      exact ⟨⟨fun h ↦ absurd (henabled.symm.trans h) Bool.false_ne_true, hseen.handles⟩, hwrites⟩

/-- Notices, one after the other. -/
theorem wp_emits {γ : Type} (f : γ → Notice) (xs : List γ) (hseen : Seen cfg ns hs t)
    (hwrites : Writes cfg t) :
    (Calls.each (fun x ↦ emit cfg.audit.enabled (f x)) xs).wp (policy build configPath cfg)
      (fun _ t ↦ Seen cfg (ns ++ xs.map f) hs t ∧ Writes cfg t) t := by
  refine Calls.wp_each (fun done _ t ↦ Seen cfg (ns ++ done.map f) hs t ∧ Writes cfg t) ?_ ?_
  · exact ⟨(List.append_nil ns).symm ▸ hseen, hwrites⟩
  · rintro done x rest _ t - ⟨hseen, hwrites⟩
    rw [List.map_append, ← List.append_assoc]
    exact wp_emit hseen hwrites (f x)

theorem Assembled.mono {mode : BackendMode} {be : SystemBackend} {t' : Trace}
    (h : Assembled build mode t be) (hle : t <+: t') : Assembled build mode t' be := by
  cases h with
  | mock h => exact .mock h
  | bare h hlinux => exact .bare h hlinux
  | native h hlinux hservices hpackages hlogs =>
      exact .native h hlinux (hle.subset hservices) (hle.subset hpackages) (hle.subset hlogs)

theorem Ground.mono {be : SystemBackend} {t' : Trace} (h : Ground build cfg t be) (hle : t <+: t') :
    Ground build cfg t' be where
  accepted := h.accepted.mono hle
  writer := Writes.mono h.writer hle
  store := h.store.imp fun _ hmem ↦ ⟨hle.subset hmem.1, hle.subset hmem.2⟩
  backend := h.backend.mono hle

theorem wp_assembleLinux (hseen : Seen cfg ns hs t) (hmode : cfg.mode ≠ .mock)
    (hlinux : build.linux = true) :
    (assembleLinux build).wp (policy build configPath cfg)
      (fun be t ↦ Seen cfg ns hs t ∧ Assembled build cfg.mode t be) t := by
  refine Calls.wp_bind.mpr ⟨trivial, fun services ↦ Calls.wp_bind.mpr ⟨trivial, fun logs ↦
    Calls.wp_bind.mpr ⟨trivial, fun packages ↦ ⟨?_, ?_⟩⟩⟩⟩
  · exact ((hseen.quiet rfl rfl).quiet rfl rfl).quiet rfl rfl
  · exact .native hmode hlinux (by simp) (by simp) (by simp)

theorem wp_assemble (hseen : Seen cfg ns hs t) :
    (assemble build cfg.mode).wp (policy build configPath cfg)
      (fun be t ↦ Seen cfg ns hs t ∧ Assembled build cfg.mode t be) t := by
  cases hmode : cfg.mode with
  | mock => exact ⟨hseen, .mock rfl⟩
  | auto =>
      unfold assemble
      dsimp only
      split
      · rename_i hlinux
        exact hmode ▸ wp_assembleLinux hseen (by rw [hmode]; rintro ⟨⟩) hlinux
      · rename_i hlinux
        exact ⟨hseen, .bare rfl (Bool.not_eq_true _ ▸ hlinux)⟩
  | real =>
      unfold assemble
      dsimp only
      split
      · rename_i hlinux
        exact hmode ▸ wp_assembleLinux hseen (by rw [hmode]; rintro ⟨⟩) hlinux
      · rename_i hlinux
        exact ⟨hmode, Bool.not_eq_true _ ▸ hlinux⟩

theorem Prepared.quiet {be : SystemBackend} {more : List Notice}
    (h : Prepared build configPath cfg t be more) {e : Σ c, StartupCall.Answer c}
    (hnotices : noticesOf [e] = []) : Prepared build configPath cfg (t ++ [e]) be more where
  toGround := h.toGround.mono (List.prefix_append _ _)
  notices henabled := by
    obtain ⟨warnings, heq⟩ := h.notices henabled
    exact ⟨warnings, by rw [noticesOf_append, hnotices, List.append_nil, heq]⟩

/-- What holds while listeners are started: those in front of the rest are there. -/
structure Listening (build : Build) (configPath : Option String) (cfg : ServerConfig)
    (be : SystemBackend) (done : List Listener) (hs : List ListenerHandle) (t : Trace) : Prop where
  prepared : Prepared build configPath cfg t be []
  handles : handlesOf t = hs
  kinds :
    List.Forall₂ (fun l (h : ListenerHandle) ↦ l.kind = if h.tls then .https else .http) done hs

/-- The listener that is next. -/
theorem Listening.next {be : SystemBackend} {done rest : List Listener} {l : Listener}
    (h : Listening build configPath cfg be done hs t) (hsplit : cfg.listeners = done ++ l :: rest) :
    cfg.listeners[(handlesOf t).length]? = some l := by
  rw [hsplit, h.handles, ← h.kinds.length_eq, List.getElem?_append_right (Nat.le_refl _),
    Nat.sub_self]
  rfl

/-- **One listener** is started as it is configured, or not at all. -/
theorem wp_startListener {be : SystemBackend} {done rest : List Listener} {l : Listener}
    (hsplit : cfg.listeners = done ++ l :: rest) (h : Listening build configPath cfg be done hs t) :
    (startListener build be l).wp (policy build configPath cfg)
      (fun handle t ↦ Listening build configPath cfg be (done ++ [l]) (hs ++ [handle]) t) t := by
  have hl : l ∈ cfg.listeners := hsplit ▸ List.mem_append_right done List.mem_cons_self
  have hvalid := h.prepared.accepted.listeners l hl
  unfold startListener
  split
  · rename_i hkind
    refine Calls.wp_bind.mpr (wp_attempt ⟨⟨h.prepared, l, h.next hsplit, hkind, rfl⟩,
      fun answer ↦ ⟨fun addr haddr ↦ ?_, fun text htext ↦ ?_⟩⟩)
    · subst haddr
      refine ⟨h.prepared.quiet rfl, ?_, List.rel_append h.kinds (.cons hkind .nil)⟩
      rw [handlesOf_append, h.handles]
      rfl
    · subst htext
      exact ⟨_, _, List.mem_append_right _ List.mem_cons_self⟩
  · rename_i hkind
    split
    · split
      · rename_i hcert
        rcases hvalid with hhttp | ⟨-, hsome, -⟩
        · cases hkind.symm.trans hhttp
        · rw [hcert] at hsome
          cases hsome
      · rename_i certPath hcert
        split
        · rename_i hkey
          rcases hvalid with hhttp | ⟨-, -, hsome⟩
          · cases hkind.symm.trans hhttp
          · rw [hkey] at hsome
            cases hsome
        · rename_i keyPath hkey
          refine Calls.wp_bind.mpr (wp_attempt ⟨trivial, fun answer ↦
            ⟨fun cert heq ↦ ?_, fun text heq ↦ ?_⟩⟩)
          · subst heq
            refine Calls.wp_bind.mpr (wp_attempt ⟨trivial, fun answer ↦
              ⟨fun key heq ↦ ?_, fun text heq ↦ ?_⟩⟩)
            · subst heq
              have hready := (h.prepared.quiet (e := ⟨.read certPath, .ok cert⟩) rfl).quiet
                (e := ⟨.read keyPath, .ok key⟩) rfl
              have hhandles : handlesOf ((t ++ [⟨.read certPath, .ok cert⟩]) ++
                  [⟨.read keyPath, .ok key⟩]) = handlesOf t := by
                rw [handlesOf_append, handlesOf_append]
                exact (List.append_nil _).trans (List.append_nil _)
              refine Calls.wp_bind.mpr (wp_attempt ⟨⟨hready, l, certPath, keyPath, ?_, hkind, rfl,
                hcert, hkey, by simp, by simp⟩,
                fun answer ↦ ⟨fun addr heq ↦ ?_, fun text heq ↦ ?_⟩⟩)
              · rw [hhandles]
                exact h.next hsplit
              · subst heq
                refine ⟨hready.quiet rfl, ?_, List.rel_append h.kinds (.cons hkind .nil)⟩
                rw [handlesOf_append, hhandles, h.handles]
                rfl
              · subst heq
                exact .inr (.inr ⟨_, _, _, _, _, List.mem_append_right _ List.mem_cons_self⟩)
            · subst heq
              exact .inr (.inl ⟨_, _, List.mem_append_right _ List.mem_cons_self⟩)
          · subst heq
            exact .inr (.inl ⟨_, _, List.mem_append_right _ List.mem_cons_self⟩)
    · rename_i htls
      exact .inl (Bool.not_eq_true _ ▸ htls)
  · rename_i hkind
    rcases hvalid with hhttp | ⟨hhttps, -⟩
    · cases hkind.symm.trans hhttp
    · cases hkind.symm.trans hhttps
  · rename_i hkind
    rcases hvalid with hhttp | ⟨hhttps, -⟩
    · cases hkind.symm.trans hhttp
    · cases hkind.symm.trans hhttps

theorem wp_startListeners {be : SystemBackend} (hhandles : handlesOf t = [])
    (h : Prepared build configPath cfg t be []) :
    (startListeners build be cfg).wp (policy build configPath cfg)
      (fun handles t ↦ Listening build configPath cfg be cfg.listeners handles t) t := by
  unfold startListeners
  split
  · rename_i hempty
    exact absurd (List.isEmpty_iff.mp hempty) h.accepted.nonempty
  · refine Calls.wp_each (Listening build configPath cfg be) ⟨h, hhandles, .nil⟩ ?_
    intro done l rest handles t hsplit hlistening
    exact wp_startListener hsplit hlistening

/-- The end of the run: notices, and calls that nothing depends on. -/
theorem wp_stop (handles : List ListenerHandle) (hseen : Seen cfg ns hs t)
    (hwrites : Writes cfg t) :
    (do
      emit cfg.audit.enabled (lifecycleNotice "shutting down")
      let _ ← Calls.each (fun h ↦ emit cfg.audit.enabled (listenerNotice "stop" h)) handles
      let _ : List Unit ← .each (fun h ↦ perform (.shutdown h.addr)) handles
      perform .shutdownAudit : Startup Unit).wp (policy build configPath cfg)
        (fun _ _ ↦ True) t := by
  refine Calls.wp_bind.mpr (Calls.wp_mono (wp_emit hseen hwrites _) fun _ t hnotice ↦ ?_)
  refine Calls.wp_bind.mpr (Calls.wp_mono (wp_emits _ _ hnotice.1 hnotice.2) fun _ t hstopped ↦ ?_)
  refine Calls.wp_bind.mpr (Calls.wp_mono (Calls.wp_each (fun _ _ _ ↦ True) trivial ?_)
    fun _ t _ ↦ ⟨trivial, fun _ ↦ trivial⟩)
  exact fun done h rest _ t _ _ ↦ ⟨trivial, fun _ ↦ trivial⟩

/-- **The run keeps to the policy.** -/
theorem wp_run : (run build loopback configPath cfg).wp (policy build configPath cfg)
    (fun _ _ ↦ True) [] := by
  have hnew : Seen cfg [] [] [] := ⟨fun _ ↦ rfl, rfl⟩
  unfold run
  refine Calls.wp_bind.mpr (Calls.wp_mono (wp_validate hnew) fun warnings t ⟨hseen, hvalid⟩ ↦ ?_)
  refine Calls.wp_bind.mpr (wp_attempt ⟨trivial, fun answer ↦ ⟨fun _ _ ↦ ?_, fun text heq ↦ ?_⟩⟩)
  · refine Calls.wp_bind.mpr (Calls.wp_mono (Calls.wp_grows (wp_openAudit (hseen.quiet rfl rfl)))
      fun sink t ⟨⟨hsink, hseen, hwrites⟩, hle⟩ ↦ ?_)
    subst hsink
    have haccepted := (hvalid.mono (List.prefix_append _ _)).mono hle
    refine Calls.wp_bind.mpr (Calls.wp_mono (Calls.wp_grows (wp_emit hseen hwrites _))
      fun _ t ⟨⟨hseen, hwrites⟩, hle⟩ ↦ ?_)
    have haccepted := haccepted.mono hle
    refine Calls.wp_bind.mpr
      (wp_attempt ⟨trivial, fun answer ↦ ⟨fun empty heq ↦ ?_, fun text heq ↦ ?_⟩⟩)
    · subst heq
      refine Calls.wp_bind.mpr ⟨trivial, fun _ ↦ ?_⟩
      refine Calls.wp_bind.mpr (Calls.wp_mono (Calls.wp_grows (wp_assemble
        ((hseen.quiet rfl rfl).quiet rfl rfl))) fun be t' ⟨⟨hseen, hassembled⟩, hle⟩ ↦ ?_)
      have hground : Ground build cfg t' be :=
        { accepted := haccepted.mono
            (((List.prefix_append _ _).trans (List.prefix_append _ _)).trans hle)
          writer := hwrites.mono
            (((List.prefix_append _ _).trans (List.prefix_append _ _)).trans hle)
          store := ⟨empty, hle.subset (by simp),
            hle.subset (List.mem_append_right _ List.mem_cons_self)⟩
          backend := hassembled }
      refine Calls.wp_bind.mpr (Calls.wp_mono (Calls.wp_grows (wp_emits id (degradedNotices be)
        hseen hground.writer)) fun _ t ⟨⟨hseen, hwrites⟩, hle⟩ ↦ ?_)
      have hprepared : Prepared build configPath cfg t be [] :=
        { toGround := hground.mono hle
          notices := fun henabled ↦ ⟨warnings, by
            rw [hseen.notices henabled, List.map_id, List.append_nil]
            rfl⟩ }
      refine Calls.wp_bind.mpr (Calls.wp_mono (wp_startListeners hseen.handles hprepared)
        fun handles t₀ hlistening ↦ ?_)
      have hground := hlistening.prepared.toGround
      refine Calls.wp_bind.mpr (Calls.wp_mono (Calls.wp_grows (wp_emits (listenerNotice "start")
        handles ⟨fun _ ↦ rfl, hlistening.handles⟩ hground.writer))
        fun _ t₁ ⟨⟨hseen, hwrites⟩, hle₁⟩ ↦ ?_)
      refine Calls.wp_bind.mpr (Calls.wp_mono (Calls.wp_grows (wp_emit hseen hwrites _))
        fun _ t₂ ⟨⟨hseen, hwrites⟩, hle₂⟩ ↦ ?_)
      have hready : Prepared build configPath cfg t₂ be
          ((handlesOf t₂).map (listenerNotice "start") ++ [lifecycleNotice "daemon started"]) :=
        { toGround := hground.mono (hle₁.trans hle₂)
          notices := fun henabled ↦ by
            obtain ⟨warnings, heq⟩ := hlistening.prepared.notices henabled
            refine ⟨warnings, ?_⟩
            rw [hseen.notices henabled, hseen.handles, heq, List.append_nil, List.append_assoc] }
      refine Calls.wp_bind.mpr ⟨⟨be, hready, hseen.handles ▸ hlistening.kinds⟩, fun _ ↦ ?_⟩
      refine Calls.wp_bind.mpr ⟨trivial, fun _ ↦ Calls.wp_bind.mpr ⟨trivial, fun _ ↦ ?_⟩⟩
      exact wp_stop handles (((hseen.quiet rfl rfl).quiet rfl rfl).quiet rfl rfl)
        (hwrites.mono (((List.prefix_append _ _).trans (List.prefix_append _ _)).trans
          (List.prefix_append _ _)))
    · subst heq
      exact ⟨_, List.mem_append_right _ List.mem_cons_self⟩
  · subst heq
    exact ⟨_, List.mem_append_right _ List.mem_cons_self⟩

/-- **The start fails closed.**  Whatever the environment answers, and wherever the run stops, each
of its calls is allowed after those before it:

* nothing listens before the configuration has been accepted, the thread of the audit writer has
  been started, the store is open and the backend is there, with notices of what it lacks;
* the listener that is next is the one that is configured there, in plain text only if it is an
  `http` one, and with the certificate and the key that were read from its own files if it is an
  `https` one;
* the daemon is ready when all of them listen, and the audit queue was told so.

And a failure has its cause in what was answered: that of a configuration that is well-formed, with
files that are there, lies in the environment.  That the audit writer could open its file is not
among this: the daemon starts without a trail if it could not. -/
theorem startup {r : Option (Except RunError Unit)}
    (hdoes : Calls.Does (run build loopback configPath cfg) t r) :
    (∀ before c answer after, t = before ++ ⟨c, answer⟩ :: after →
      Allowed build configPath cfg before c) ∧
      ∀ e, r = some (.error e) → Caused build cfg t e := by
  obtain ⟨hallowed, hcaused, -⟩ := hdoes.sound wp_run
  exact ⟨fun before c answer after heq ↦ hallowed before c answer after heq, hcaused⟩

/-- The gate of the packaged unit: after `check_config` has accepted a configuration, the start does
not refuse it while the files are there. -/
theorem startup_of_checkConfig {t' : Trace} {warnings : List String}
    (hcheck : Calls.Does (checkConfig loopback cfg) t' (some (.ok warnings)))
    {r : Option (Except RunError Unit)}
    (hdoes : Calls.Does (run build loopback configPath cfg) t r)
    (hfiles : ∀ path, ⟨.isFile path, false⟩ ∉ t) (e : ConfigError) :
    r ≠ some (.error (.config e)) := by
  have hnew : Seen cfg [] [] [] := ⟨fun _ ↦ rfl, rfl⟩
  have hchecked : (checkConfig loopback cfg).wp (policy build configPath cfg)
      (fun _ t ↦ Seen cfg [] [] t ∧ Accepted cfg t) [] := wp_validate hnew
  have hvalid := (hcheck.sound hchecked).2.2 _ rfl
  intro heq
  obtain ⟨path, hmem⟩ := (hdoes.sound wp_run).2.1 _ heq hvalid.2.toWellFormed
  exact hfiles path hmem

end

/-- A build for a host that is not Linux. -/
def otherBuild : Build where
  linux := false
  tls := true
  host := ⟨.error .unavailable⟩
  mockHost := ⟨.error .unavailable⟩
  mockServices := ⟨fun _ _ _ ↦ .error .unsupported, fun _ ↦ .error .unsupported,
    fun _ ↦ .error .unsupported, fun _ ↦ .error .unsupported, fun _ ↦ .error .unsupported⟩
  mockPackages := ⟨fun _ _ _ ↦ .error .unsupported, fun _ ↦ .error .unsupported,
    fun _ ↦ .error .unsupported⟩
  mockLogs := ⟨fun _ ↦ .error .unsupported⟩

/-- An environment in which all goes well. -/
def calm : (c : StartupCall) → c.Answer
  | .isFile _ => true
  | .createDirAll _ => .ok ()
  | .openStore _ => .ok true
  | .probeServices | .probeLogs | .probePackages => none
  | .read _ => .ok []
  | .serve _ bind | .serveTls _ bind _ _ => .ok bind
  | .spawnWriter .. | .emit _ | .beginBootstrap .. | .ready | .shutdownSignal | .stopping
  | .shutdown _ | .shutdownAudit => ()

/-- The daemon is started with the default configuration: it is ready after twelve calls. -/
theorem startup_default :
    Allowed otherBuild none .default
      (((run otherBuild (fun _ ↦ some true) none .default).follow calm).1.take 12) .ready :=
  (startup (Calls.does_follow calm (run otherBuild (fun _ ↦ some true) none .default))).1 _ .ready
    () (((run otherBuild (fun _ ↦ some true) none .default).follow calm).1.drop 13) rfl

end Vaiexia.Config
