import Vaiexia.Api.Server
import Vaiexia.Backend.Logs
import Vaiexia.Backend.RunJob

/-!
# Service requests and the bus

`server.services.start`, `stop` and `restart`, many at a time, with `SystemdServices` behind them.
A call of the manager of systemd is a message that is answered later, maybe when nobody waits for
the answer any more, and the jobs of all calls end in signals that everyone is sent.

The handler gives up after some time, wherever the call is then.  `service_requests` is about all
interleavings of requests, answers, signals and these ends: what becomes of a request is what
`runJob` says of the answers that it had, its signal cannot be missed, and no more than one job is
made of it, also after its end.
-/

namespace Vaiexia.Api

open Vaiexia.Lib Vaiexia.Audit Vaiexia.Auth Vaiexia.Backend

/-! ## The bus -/

/-- What the manager of systemd does that others are told of. -/
inductive BusEvent (ι : Type) where
  /-- A job is made of the call of a request, and the call is answered with its path. -/
  | queued (i : ι) (verb : Verb) (name path : String)
  /-- `JobRemoved`, or a signal with malformed arguments. -/
  | removed (args : Option JobRemoved)

/-- The job that an event is about. -/
def BusEvent.path {ι : Type} : BusEvent ι → Option String
  | queued _ _ _ path => some path
  | removed args => args.map JobRemoved.job

/-- The signals of a log. -/
def signals {ι : Type} (log : List (BusEvent ι)) : List (Option JobRemoved) :=
  log.filterMap fun
    | .queued .. => none
    | .removed args => some args

/-- The job that was made of the call of a request. -/
def BusEvent.jobOf {ι : Type} [DecidableEq ι] (i : ι) : BusEvent ι → Option (Verb × String × String)
  | queued j verb name path => if j = i then some (verb, name, path) else none
  | removed _ => none

/-- The jobs that were made of the calls of a request. -/
def jobsOf {ι : Type} [DecidableEq ι] (i : ι) (log : List (BusEvent ι)) :
    List (Verb × String × String) :=
  log.filterMap (BusEvent.jobOf i)

/-! ## Requests -/

/-- The verb of `run_job`. -/
def ServiceVerb.job : ServiceVerb → Verb
  | start => .start
  | stop => .stop
  | restart => .restart

/-- `start`, `stop` and `restart` of `SystemdServices`, with what the bus answers. -/
def systemdCall (bus : Bus) (verb : Verb) (name : String) : Except BackendError ServiceState :=
  if isSystemdUnitName name then runJob bus name verb else .error .invalidName

/-- A request, with what the daemon has for it. -/
structure ServiceRequest (core : ScopeSets) where
  backend : SystemBackend
  clock : EventClock
  snap : IdentitySnapshot
  subject : Subject core
  verb : ServiceVerb
  name : String

/-- What the handler does about a call that has returned, or that it has given up. -/
def ServiceRequest.report {core : ScopeSets} (req : ServiceRequest core) (mgr : ServiceManager)
    (returned : Option (Except BackendError ServiceState)) :
    List AuditEvent × Except Diagnostic ServiceOutcomeDto :=
  let r := returned.getD (.error .timeout)
  let mgr := { mgr with start := fun _ ↦ r, stop := fun _ ↦ r, restart := fun _ ↦ r }
  runServiceMutation { req.backend with services := some mgr } req.clock returned.isNone req.snap
    req.subject req.verb req.name

/-- The call of the manager of systemd: a message, and its answer. -/
inductive BusCall where
  | notSent | sent
  | answered (reply : Except String String)
deriving DecidableEq

/-- Where a request is.  Signals are heard from a place in the log on. -/
inductive RequestStage where
  | new | connecting | subscribing | opening
  | submitting (opened : Nat)
  | submitted (opened : Nat)
  | waiting (opened : Nat) (path : String) (heard : Nat)
  | asking (opened : Nat) (path : String) (heard : Nat) (jobResult : String)
  | returned (r : Except BackendError ServiceState)
  | elapsed | finished

/-- The call is underway, and waits for something.  A result that is no reason to ask for the status
of the unit is returned at once. -/
def RequestStage.Waits : RequestStage → Prop
  | new | returned _ | elapsed | finished => False
  | asking _ _ _ jobResult => jobOutcome jobResult = .query
  | _ => True

/-- The error of a wait without a match. -/
def waitError : Ending → BackendError
  | .closed => .unavailable
  | .elapsed => .timeout

/-- The task of a request. -/
structure RequestTask where
  stage : RequestStage
  call : BusCall
  outcome : Option (List AuditEvent × Except Diagnostic ServiceOutcomeDto)

/-- The manager of systemd answers the call. -/
def RequestTask.reply (t : RequestTask) (reply : Except String String) : RequestTask :=
  { t with call := .answered reply }

/-- One step of the task of a request, with what the bus has done so far. -/
inductive RequestTask.Step {ι : Type} {core : ScopeSets} (req : ServiceRequest core)
    (log : List (BusEvent ι)) : RequestTask → RequestTask → Prop
  | reject {t : RequestTask} (h : t.stage = .new) {d : Diagnostic}
      (hd : validateAndGetManager req.backend req.name = .error d) :
      Step req log t { t with stage := .finished, outcome := some ([], .error d) }
  /-- The name is not one of systemd's. -/
  | invalid {t : RequestTask} (h : t.stage = .new) {mgr : ServiceManager}
      (hmgr : validateAndGetManager req.backend req.name = .ok (mgr, req.name))
      (hname : isSystemdUnitName req.name = false) :
      Step req log t { t with stage := .returned (.error .invalidName) }
  | begin {t : RequestTask} (h : t.stage = .new) {mgr : ServiceManager}
      (hmgr : validateAndGetManager req.backend req.name = .ok (mgr, req.name))
      (hname : isSystemdUnitName req.name = true) :
      Step req log t { t with stage := .connecting }
  /-- One of the calls before the submission fails. -/
  | fail {t : RequestTask}
      (h : t.stage = .connecting ∨ t.stage = .subscribing ∨ t.stage = .opening) (msg : String) :
      Step req log t { t with stage := .returned (.error (mapDbusError msg)) }
  | connect {t : RequestTask} (h : t.stage = .connecting) :
      Step req log t { t with stage := .subscribing }
  | subscribe {t : RequestTask} (h : t.stage = .subscribing) :
      Step req log t { t with stage := .opening }
  /-- The stream of signals is there before the job is submitted. -/
  | openStream {t : RequestTask} (h : t.stage = .opening) :
      Step req log t { t with stage := .submitting log.length }
  | submit {t : RequestTask} {opened : Nat} (h : t.stage = .submitting opened) :
      Step req log t { t with stage := .submitted opened, call := .sent }
  /-- The submission fails, or so it seems. -/
  | refused {t : RequestTask} {opened : Nat} (h : t.stage = .submitted opened) (msg : String) :
      Step req log t { t with stage := .returned (.error (mapSubmitError msg)) }
  | queued {t : RequestTask} {opened : Nat} (h : t.stage = .submitted opened) {path : String}
      (hcall : t.call = .answered (.ok path)) :
      Step req log t { t with stage := .waiting opened path 0 }
  /-- A signal that is not taken. -/
  | skip {t : RequestTask} {opened : Nat} {path : String} {heard : Nat}
      (h : t.stage = .waiting opened path heard) {signal : Option JobRemoved}
      (hsignal : (signals (log.drop opened))[heard]? = some signal)
      (hother : ∀ args ∈ signal, args.isTaken path req.name = false) :
      Step req log t { t with stage := .waiting opened path (heard + 1) }
  | take {t : RequestTask} {opened : Nat} {path : String} {heard : Nat}
      (h : t.stage = .waiting opened path heard) {args : JobRemoved}
      (hsignal : (signals (log.drop opened))[heard]? = some (some args))
      (htaken : args.isTaken path req.name = true) :
      Step req log t { t with stage := .asking opened path heard args.result }
  /-- The wait ends without a signal. -/
  | giveUp {t : RequestTask} {opened : Nat} {path : String} {heard : Nat}
      (h : t.stage = .waiting opened path heard) (ending : Ending) :
      Step req log t { t with stage := .returned (.error (waitError ending)) }
  /-- The final state, of which the unit's status is asked if the result says so. -/
  | answer {t : RequestTask} {opened : Nat} {path : String} {heard : Nat} {jobResult : String}
      (h : t.stage = .asking opened path heard jobResult)
      (status : Except BackendError UnitDetail) :
      Step req log t { t with stage := .returned (finalState status jobResult) }
  /-- The handler's time is over, and the call is dropped where it is. -/
  | elapse {t : RequestTask} (h : t.stage.Waits) : Step req log t { t with stage := .elapsed }
  | report {t : RequestTask} {returned : Option (Except BackendError ServiceState)}
      (h : t.stage = returned.elim .elapsed .returned) {mgr : ServiceManager}
      (hmgr : validateAndGetManager req.backend req.name = .ok (mgr, req.name)) :
      Step req log t { t with stage := .finished, outcome := some (req.report mgr returned) }

/-- The daemon and the bus. -/
structure ServiceRequests (ι : Type) where
  tasks : ι → RequestTask
  log : List (BusEvent ι)

namespace ServiceRequests

variable {ι : Type} [DecidableEq ι] {core : ScopeSets}

/-- Before the first request. -/
def new : ServiceRequests ι where
  tasks := fun _ ↦ ⟨.new, .notSent, none⟩
  log := []

/-- One step of a request or of the manager of systemd, which has other clients too. -/
inductive Step (reqs : ι → ServiceRequest core) : ServiceRequests ι → ServiceRequests ι → Prop
  | task {s : ServiceRequests ι} (i : ι) {t : RequestTask}
      (h : RequestTask.Step (reqs i) s.log (s.tasks i) t) :
      Step reqs s { s with tasks := Function.update s.tasks i t }
  | refuse {s : ServiceRequests ι} (i : ι) (h : (s.tasks i).call = .sent) (msg : String) :
      Step reqs s { s with tasks := Function.update s.tasks i ((s.tasks i).reply (.error msg)) }
  /-- A job has a path of its own. -/
  | queue {s : ServiceRequests ι} (i : ι) (h : (s.tasks i).call = .sent) {path : String}
      (hpath : ∀ e ∈ s.log, e.path ≠ some path) :
      Step reqs s { s with
        tasks := Function.update s.tasks i ((s.tasks i).reply (.ok path))
        log := s.log ++ [.queued i (reqs i).verb.job (reqs i).name path] }
  | remove {s : ServiceRequests ι} (args : Option JobRemoved) :
      Step reqs s { s with log := s.log ++ [.removed args] }

/-- Any interleaving. -/
abbrev Run (reqs : ι → ServiceRequest core) : ServiceRequests ι → ServiceRequests ι → Prop :=
  Relation.ReflTransGen (Step reqs)

end ServiceRequests

/-! ## What is known of a call -/

/-- The job of a call. -/
def BusCall.jobs {core : ScopeSets} (req : ServiceRequest core) :
    BusCall → List (Verb × String × String)
  | answered (.ok path) => [(req.verb.job, req.name, path)]
  | _ => []

section

variable {ι : Type} {core : ScopeSets} {req : ServiceRequest core} {log log' : List (BusEvent ι)}
  {call call' : BusCall} {opened : Nat}

/-- The stream was opened before there was a job. -/
structure Opened (log : List (BusEvent ι)) (call : BusCall) (opened : Nat) : Prop where
  le : opened ≤ log.length
  before : ∀ path, call = .answered (.ok path) → ∀ e ∈ log.take opened, e.path ≠ some path

/-- What a call has heard of the bus: signals from its beginning on, and the path of its job. -/
structure Heard (req : ServiceRequest core) (log : List (BusEvent ι)) (call : BusCall) (bus : Bus) :
    Prop where
  signals : ∃ opened, Opened log call opened ∧ bus.signals <+: Vaiexia.Api.signals (log.drop opened)
  submit : ∀ path, bus.submit req.verb.job req.name = .ok path → call = .answered (.ok path)

/-- What a call returns: what `runJob` does, with the answers of the bus. -/
def Returned (req : ServiceRequest core) (log : List (BusEvent ι)) (call : BusCall)
    (r : Except BackendError ServiceState) : Prop :=
  ∃ bus, Heard req log call bus ∧ r = systemdCall bus req.verb.job req.name

/-- What a caller is told: a refusal, or the report of what the call has returned. -/
inductive Told (req : ServiceRequest core) (log : List (BusEvent ι)) :
    BusCall → List AuditEvent × Except Diagnostic ServiceOutcomeDto → Prop
  | rejected {d : Diagnostic} (h : validateAndGetManager req.backend req.name = .error d) :
      Told req log .notSent ([], .error d)
  | reported {call : BusCall} {mgr : ServiceManager}
      (h : validateAndGetManager req.backend req.name = .ok (mgr, req.name))
      {returned : Option (Except BackendError ServiceState)}
      (hreturned : ∀ r, returned = some r → Returned req log call r) :
      Told req log call (req.report mgr returned)

/-- What is known at a stage. -/
def RequestStage.At (req : ServiceRequest core) (log : List (BusEvent ι)) (call : BusCall) :
    RequestStage → Prop
  | new => call = .notSent
  | connecting | subscribing | opening => call = .notSent ∧ isSystemdUnitName req.name = true
  | submitting opened =>
      call = .notSent ∧ isSystemdUnitName req.name = true ∧ opened ≤ log.length
  | submitted opened => call ≠ .notSent ∧ Opened log call opened
  | waiting opened path heard =>
      call = .answered (.ok path) ∧ Opened log call opened ∧
        ∃ others, others.length = heard ∧ others <+: signals (log.drop opened) ∧
          firstTaken path req.name others = none
  | asking opened path _ jobResult =>
      call = .answered (.ok path) ∧ Opened log call opened ∧
        ∃ seen, seen <+: signals (log.drop opened) ∧
          ∃ first, firstTaken path req.name seen = some first ∧ first.result = jobResult
  | returned r => Returned req log call r
  | elapsed | finished => True

/-- The invariant of a task. -/
structure RequestTask.Known [DecidableEq ι] (req : ServiceRequest core) (i : ι)
    (log : List (BusEvent ι)) (t : RequestTask) : Prop where
  jobs : jobsOf i log = t.call.jobs req
  valid : t.call ≠ .notSent → isSystemdUnitName req.name = true
  stage : t.stage.At req log t.call
  pending : t.stage ≠ .finished → t.outcome = none
  told : ∀ o, t.outcome = some o → Told req log t.call o

/-! ## What the bus does -/

theorem signals_append (log log' : List (BusEvent ι)) :
    signals (log ++ log') = signals log ++ signals log' := List.filterMap_append

/-- What may change without the task of a request: the log grows, and a message is answered. -/
structure Grows (log log' : List (BusEvent ι)) (call call' : BusCall) : Prop where
  events : log <+: log'
  reply : call' = call ∨ call = .sent ∧ call' ≠ .notSent ∧
    ∀ path, call' = .answered (.ok path) → ∀ e ∈ log, e.path ≠ some path

namespace Grows

theorem call_eq (h : Grows log log' call call') (hcall : call ≠ .sent) : call' = call := by
  rcases h.reply with heq | ⟨heq, -⟩
  · exact heq
  · exact absurd heq hcall

theorem keeps (h : Grows log log' call call') (ho : Opened log call opened) :
    Opened log' call' opened := by
  obtain ⟨rest, rfl⟩ := h.events
  refine ⟨Nat.le_trans ho.le (List.length_append ▸ Nat.le_add_right _ _), fun path hpath e he ↦ ?_⟩
  rw [List.take_append_of_le_length ho.le] at he
  rcases h.reply with rfl | ⟨-, -, hnew⟩
  · exact ho.before path hpath e he
  · exact hnew path hpath e (List.mem_of_mem_take he)

theorem signals (h : Grows log log' call call') (hle : opened ≤ log.length) :
    Vaiexia.Api.signals (log.drop opened) <+: Vaiexia.Api.signals (log'.drop opened) := by
  obtain ⟨rest, rfl⟩ := h.events
  rw [List.drop_append_of_le_length hle, signals_append]
  exact List.prefix_append _ _

theorem returned (h : Grows log log' call call') {r : Except BackendError ServiceState}
    (hr : Returned req log call r) : Returned req log' call' r := by
  obtain ⟨bus, ⟨⟨opened, hopened, hsignals⟩, hsubmit⟩, rfl⟩ := hr
  refine ⟨bus, ⟨⟨opened, h.keeps hopened, hsignals.trans (h.signals hopened.le)⟩, ?_⟩, rfl⟩
  intro path hpath
  have hcall := hsubmit path hpath
  exact (h.call_eq fun hsent ↦ by cases hcall.symm.trans hsent).trans hcall

theorem told (h : Grows log log' call call')
    {o : List AuditEvent × Except Diagnostic ServiceOutcomeDto} (ho : Told req log call o) :
    Told req log' call' o := by
  cases ho with
  | rejected hd =>
      rw [h.call_eq fun heq ↦ by cases heq]
      exact .rejected hd
  | reported hmgr hreturned =>
      exact .reported hmgr fun r hr ↦ h.returned (hreturned r hr)

/-- What is known at a stage stays known. -/
theorem at_stage (h : Grows log log' call call') {stage : RequestStage}
    (hat : stage.At req log call) : stage.At req log' call' := by
  cases stage with
  | new => exact (h.call_eq (by rw [hat]; rintro ⟨⟩)).trans hat
  | connecting | subscribing | opening =>
      exact ⟨(h.call_eq (by rw [hat.1]; rintro ⟨⟩)).trans hat.1, hat.2⟩
  | submitting opened =>
      exact ⟨(h.call_eq (by rw [hat.1]; rintro ⟨⟩)).trans hat.1, hat.2.1,
        Nat.le_trans hat.2.2 h.events.length_le⟩
  | submitted opened =>
      refine ⟨?_, h.keeps hat.2⟩
      rcases h.reply with rfl | ⟨-, hne, -⟩
      · exact hat.1
      · exact hne
  | waiting opened path heard =>
      obtain ⟨hcall, hopened, others, hlen, hprefix, hnone⟩ := hat
      exact ⟨(h.call_eq (by rw [hcall]; rintro ⟨⟩)).trans hcall, h.keeps hopened, others, hlen,
        hprefix.trans (h.signals hopened.le), hnone⟩
  | asking opened path heard jobResult =>
      obtain ⟨hcall, hopened, seen, hprefix, hfirst⟩ := hat
      exact ⟨(h.call_eq (by rw [hcall]; rintro ⟨⟩)).trans hcall, h.keeps hopened, seen,
        hprefix.trans (h.signals hopened.le), hfirst⟩
  | returned r => exact h.returned hat
  | elapsed | finished => trivial

end Grows

/-! ## What a call returns -/

/-- The bus of a call that gets to the submission. -/
def busOf (reply : Except String String) (signals : List (Option JobRemoved)) (ending : Ending)
    (status : Except BackendError UnitDetail) : Bus where
  connect := .ok ()
  subscribe := .ok ()
  receiveJobRemoved := .ok ()
  submit := fun _ _ ↦ reply
  signals := signals
  ending := ending
  status := fun _ ↦ status

/-- The bus of a call that does not. -/
def brokenBus (msg : String) : Bus where
  connect := .error msg
  subscribe := .error msg
  receiveJobRemoved := .error msg
  submit := fun _ _ ↦ .error msg
  signals := []
  ending := .closed
  status := fun _ ↦ .error .unavailable

theorem awaitJob_eq_error {path name : String} (ending : Ending) {seen : List (Option JobRemoved)}
    (h : firstTaken path name seen = none) :
    awaitJob path name ending seen = .error (waitError ending) := by
  induction seen with
  | nil => cases ending <;> rfl
  | cons signal seen ih =>
      cases signal with
      | none => exact ih h
      | some args =>
          rw [firstTaken, List.reduceOption_cons_of_some, List.find?_cons] at h
          rw [awaitJob]
          split at h
          · cases h
          · rename_i hnot
            rw [if_neg (by rw [hnot]; exact Bool.false_ne_true)]
            exact ih h

theorem runJob_busOf {reply : Except String String} {seen : List (Option JobRemoved)}
    {ending : Ending} {status : Except BackendError UnitDetail} {name : String} {verb : Verb} :
    runJob (busOf reply seen ending status) name verb =
      (reply.mapError mapSubmitError >>= fun path ↦ awaitJob path name ending seen >>=
        finalState status) := rfl

theorem systemdCall_of_valid (h : isSystemdUnitName req.name = true) (bus : Bus) (verb : Verb) :
    systemdCall bus verb req.name = runJob bus req.name verb := if_pos h

theorem firstTaken_append {path name : String} {seen seen' : List (Option JobRemoved)}
    (h : firstTaken path name seen = none) :
    firstTaken path name (seen ++ seen') = firstTaken path name seen' := by
  rw [firstTaken] at h
  rw [firstTaken, List.reduceOption_append, List.find?_append, h, Option.none_or]
  rfl

/-- A call that has heard nothing. -/
theorem returned_of_nil {bus : Bus} (hsignals : bus.signals = [])
    (hsubmit : ∀ path, bus.submit req.verb.job req.name ≠ .ok path) :
    Returned req log call (systemdCall bus req.verb.job req.name) :=
  ⟨bus, ⟨⟨0, ⟨Nat.zero_le _, fun _ _ e he ↦ by cases he⟩, hsignals ▸ List.nil_prefix⟩,
    fun path hpath ↦ absurd hpath (hsubmit path)⟩, rfl⟩

theorem prefix_of_getElem? {α : Type} {xs ys : List α} {x : α} (h : xs <+: ys)
    (hx : ys[xs.length]? = some x) : xs ++ [x] <+: ys := by
  obtain ⟨rest, rfl⟩ := h
  rw [List.getElem?_append_right (Nat.le_refl _), Nat.sub_self] at hx
  obtain ⟨rest, rfl⟩ := List.head?_eq_some_iff.mp (List.head?_eq_getElem? ▸ hx)
  exact ⟨rest, by rw [List.append_assoc]; rfl⟩

/-- **A step of a request** keeps what is known of it. -/
theorem RequestTask.Step.known [DecidableEq ι] {i : ι} {t t' : RequestTask}
    (hstep : RequestTask.Step req log t t') (h : t.Known req i log) : t'.Known req i log := by
  have hat := h.stage
  have hquiet {stage : RequestStage} (hne : t.stage ≠ .finished)
      (hstage : stage.At req log t.call) :
      RequestTask.Known req i log { t with stage } :=
    ⟨h.jobs, h.valid, hstage, fun _ ↦ h.pending hne, h.told⟩
  cases hstep with
  | reject hstage hd =>
      rw [hstage] at hat
      refine ⟨h.jobs, h.valid, trivial, fun hne ↦ absurd rfl hne, fun o ho ↦ ?_⟩
      obtain rfl := Option.some.inj ho
      exact hat ▸ .rejected hd
  | invalid hstage _ hname =>
      have hcall : systemdCall (brokenBus "") req.verb.job req.name = .error .invalidName :=
        if_neg (by rw [hname]; exact Bool.false_ne_true)
      exact hquiet (by rw [hstage]; rintro ⟨⟩)
        (hcall ▸ returned_of_nil rfl fun _ heq ↦ by cases heq)
  | begin hstage _ hname =>
      rw [hstage] at hat
      exact hquiet (by rw [hstage]; rintro ⟨⟩) ⟨hat, hname⟩
  | fail hstage msg =>
      have hname : isSystemdUnitName req.name = true := by
        rcases hstage with hstage | hstage | hstage <;> rw [hstage] at hat <;> exact hat.2
      have hcall : systemdCall (brokenBus msg) req.verb.job req.name = .error (mapDbusError msg) :=
        systemdCall_of_valid hname _ _
      refine hquiet ?_ (hcall ▸ returned_of_nil rfl fun _ heq ↦ by cases heq)
      rcases hstage with hstage | hstage | hstage <;> rw [hstage] <;> rintro ⟨⟩
  | connect hstage | subscribe hstage =>
      rw [hstage] at hat
      exact hquiet (by rw [hstage]; rintro ⟨⟩) hat
  | openStream hstage =>
      rw [hstage] at hat
      exact hquiet (by rw [hstage]; rintro ⟨⟩) ⟨hat.1, hat.2, Nat.le_refl _⟩
  | submit hstage =>
      rw [hstage] at hat
      have hne : t.stage ≠ .finished := by rw [hstage]; rintro ⟨⟩
      refine ⟨?_, fun _ ↦ hat.2.1, ⟨by rintro ⟨⟩, hat.2.2, fun _ heq ↦ by cases heq⟩,
        fun _ ↦ h.pending hne, fun o ho ↦ ?_⟩
      · rw [h.jobs, hat.1]
        rfl
      · cases (h.pending hne).symm.trans ho
  | refused hstage msg =>
      rw [hstage] at hat
      have hcall : systemdCall (busOf (.error msg) [] .closed (.error .unavailable)) req.verb.job
          req.name = .error (mapSubmitError msg) := systemdCall_of_valid (h.valid hat.1) _ _
      exact hquiet (by rw [hstage]; rintro ⟨⟩)
        (hcall ▸ returned_of_nil rfl fun _ heq ↦ by cases heq)
  | queued hstage hcall =>
      rw [hstage] at hat
      exact hquiet (by rw [hstage]; rintro ⟨⟩) ⟨hcall, hat.2, [], rfl, List.nil_prefix, rfl⟩
  | @skip opened path heard hstage signal hsignal hother =>
      rw [hstage] at hat
      obtain ⟨hcall, hopened, others, rfl, hprefix, hnone⟩ := hat
      refine hquiet (by rw [hstage]; rintro ⟨⟩) ⟨hcall, hopened, others ++ [signal],
        by rw [List.length_append]; rfl, prefix_of_getElem? hprefix hsignal, ?_⟩
      rw [firstTaken_append hnone]
      cases signal with
      | none => rfl
      | some args =>
          rw [firstTaken, List.reduceOption_singleton]
          exact List.find?_eq_none.mpr fun args' hargs' ↦ by
            rw [hother args' (Option.mem_toList.mp hargs')]
            exact Bool.false_ne_true
  | @take opened path heard hstage args hsignal htaken =>
      rw [hstage] at hat
      obtain ⟨hcall, hopened, others, rfl, hprefix, hnone⟩ := hat
      refine hquiet (by rw [hstage]; rintro ⟨⟩) ⟨hcall, hopened, others ++ [some args],
        prefix_of_getElem? hprefix hsignal, args, ?_, rfl⟩
      rw [firstTaken_append hnone]
      exact List.find?_cons_of_pos htaken
  | @giveUp opened path heard hstage ending =>
      rw [hstage] at hat
      obtain ⟨hcall, hopened, others, -, hprefix, hnone⟩ := hat
      have hvalid := h.valid (by rw [hcall]; rintro ⟨⟩)
      refine hquiet (by rw [hstage]; rintro ⟨⟩)
        ⟨busOf (.ok path) others ending (.error .unavailable),
          ⟨⟨opened, hopened, hprefix⟩, fun path' heq ↦ Except.ok.inj heq ▸ hcall⟩, ?_⟩
      rw [systemdCall_of_valid hvalid, runJob_busOf]
      show _ = (awaitJob path req.name ending others >>= finalState _)
      rw [awaitJob_eq_error ending hnone]
      rfl
  | @answer opened path heard jobResult hstage status =>
      rw [hstage] at hat
      obtain ⟨hcall, hopened, seen, hprefix, first, hfirst, rfl⟩ := hat
      have hvalid := h.valid (by rw [hcall]; rintro ⟨⟩)
      refine hquiet (by rw [hstage]; rintro ⟨⟩) ⟨busOf (.ok path) seen .closed status,
        ⟨⟨opened, hopened, hprefix⟩, fun path' heq ↦ Except.ok.inj heq ▸ hcall⟩, ?_⟩
      rw [systemdCall_of_valid hvalid]
      exact (@runJob_of_firstTaken (busOf (.ok path) seen .closed status) _ _ _ rfl rfl rfl rfl _
        hfirst).symm
  | elapse hwaits =>
      refine hquiet (fun heq ↦ ?_) trivial
      rw [heq] at hwaits
      exact hwaits
  | @report returned hstage mgr hmgr =>
      refine ⟨h.jobs, h.valid, trivial, fun hne ↦ absurd rfl hne, fun o ho ↦ ?_⟩
      obtain rfl := Option.some.inj ho
      refine .reported hmgr fun r hr ↦ ?_
      rw [hstage, hr] at hat
      exact hat

/-! ## All requests -/

section

variable [DecidableEq ι] {i : ι}

/-- What others do keeps what is known of a request. -/
theorem RequestTask.Known.grow {t : RequestTask} (h : t.Known req i log)
    (hgrows : Grows log log' t.call call') (hjobs : jobsOf i log' = call'.jobs req) :
    RequestTask.Known req i log' { t with call := call' } where
  jobs := hjobs
  valid hcall := by
    rcases hgrows.reply with heq | ⟨heq, -⟩
    · exact h.valid (heq ▸ hcall)
    · exact h.valid (by rw [heq]; rintro ⟨⟩)
  stage := hgrows.at_stage h.stage
  pending := h.pending
  told o ho := hgrows.told (h.told o ho)

theorem jobsOf_append_queued_self (verb : Verb) (name path : String) :
    jobsOf i (log ++ [.queued i verb name path]) = jobsOf i log ++ [(verb, name, path)] := by
  rw [jobsOf, List.filterMap_append,
    List.filterMap_cons_some (show BusEvent.jobOf i (.queued i verb name path) = some _ from
      if_pos rfl)]
  rfl

theorem jobsOf_append_of_none {e : BusEvent ι} (h : e.jobOf i = none) :
    jobsOf i (log ++ [e]) = jobsOf i log := by
  rw [jobsOf, List.filterMap_append, List.filterMap_cons_none h]
  exact List.append_nil _

namespace ServiceRequests

variable {reqs : ι → ServiceRequest core} {s s' : ServiceRequests ι}

/-- The invariant of the daemon and the bus. -/
def Inv (reqs : ι → ServiceRequest core) (s : ServiceRequests ι) : Prop :=
  ∀ i, (s.tasks i).Known (reqs i) i s.log

theorem Inv.new : Inv reqs (ServiceRequests.new : ServiceRequests ι) := fun _ ↦
  ⟨rfl, fun h ↦ absurd rfl h, rfl, fun _ ↦ rfl, fun _ ho ↦ by cases ho⟩

theorem forall_update {P : ι → RequestTask → Prop} {tasks : ι → RequestTask} {t : RequestTask}
    (hi : P i t) (hother : ∀ j, j ≠ i → P j (tasks j)) :
    ∀ j, P j (Function.update tasks i t j) := by
  intro j
  by_cases hj : j = i
  · rw [hj, Function.update_self]
    exact hi
  · rw [Function.update_of_ne hj]
    exact hother j hj

theorem Step.inv (hstep : Step reqs s s') (h : Inv reqs s) : Inv reqs s' := by
  cases hstep with
  | task i hstep => exact forall_update (hstep.known (h i)) fun j _ ↦ h j
  | refuse i hcall msg =>
      refine forall_update ?_ fun j _ ↦ h j
      refine (h i).grow
        ⟨List.prefix_refl _, .inr ⟨hcall, by rintro ⟨⟩, fun _ heq ↦ by cases heq⟩⟩ ?_
      rw [(h i).jobs, hcall]
      rfl
  | queue i hcall hpath =>
      refine forall_update ?_ fun j hj ↦ ?_
      · refine (h i).grow ⟨List.prefix_append _ _, .inr ⟨hcall, by rintro ⟨⟩, ?_⟩⟩ ?_
        · intro path' heq
          rw [← Except.ok.inj (BusCall.answered.inj heq)]
          exact hpath
        · rw [jobsOf_append_queued_self, (h i).jobs, hcall]
          rfl
      · refine (h j).grow ⟨List.prefix_append _ _, .inl rfl⟩ ?_
        exact (jobsOf_append_of_none (show BusEvent.jobOf j (.queued i _ _ _) = none from
          if_neg (Ne.symm hj))).trans (h j).jobs
  | remove args =>
      refine fun j ↦ (h j).grow ⟨List.prefix_append _ _, .inl rfl⟩ ?_
      exact (jobsOf_append_of_none rfl).trans (h j).jobs

theorem Run.inv (hrun : Run reqs .new s) : Inv reqs s := by
  induction hrun with
  | refl => exact Inv.new
  | tail _ hstep ih => exact hstep.inv ih

end ServiceRequests

end

/-! ## What a caller may conclude -/

/-- A call that returns a state has taken a signal. -/
theorem exists_of_runJob_eq_ok {bus : Bus} {name : String} {verb : Verb} {state : ServiceState}
    (h : runJob bus name verb = .ok state) :
    ∃ path first, bus.submit verb name = .ok path ∧ some first ∈ bus.signals ∧
      first.isTaken path name = true ∧ finalState (bus.status name) first.result = .ok state := by
  unfold runJob at h
  cases hconnect : bus.connect with
  | error msg => rw [hconnect] at h; cases h
  | ok u =>
  cases hsubscribe : bus.subscribe with
  | error msg => rw [hconnect, hsubscribe] at h; cases h
  | ok v =>
  cases hreceive : bus.receiveJobRemoved with
  | error msg => rw [hconnect, hsubscribe, hreceive] at h; cases h
  | ok w =>
  cases hsubmit : bus.submit verb name with
  | error msg => rw [hconnect, hsubscribe, hreceive, hsubmit] at h; cases h
  | ok path =>
  rw [hconnect, hsubscribe, hreceive, hsubmit] at h
  change (awaitJob path name bus.ending bus.signals >>= finalState (bus.status name)) = _ at h
  cases hfirst : firstTaken path name bus.signals with
  | none =>
      rw [awaitJob_eq_error _ hfirst] at h
      cases h
  | some first =>
      rw [awaitJob_of_firstTaken _ hfirst] at h
      exact ⟨path, first, rfl, List.reduceOption_mem_iff.mp (List.mem_of_find?_eq_some hfirst),
        List.find?_some hfirst, h⟩

/-- The record of a request. -/
def ServiceRequest.record (req : ServiceRequest core) (decision : AuditDecision)
    (outcome : String) : AuditEvent :=
  (((subjectEvent req.clock.now req.snap req.subject .mutation decision).withMethod
    req.verb.method).withDetail s!"unit={req.name} outcome={outcome}").withLatencyUs
      req.clock.latencyUs

/-- What a caller is told, and what is recorded for it. -/
inductive Answered [DecidableEq ι] (req : ServiceRequest core) (i : ι) (log : List (BusEvent ι)) :
    List AuditEvent × Except Diagnostic ServiceOutcomeDto → Prop
  /-- Nothing was done. -/
  | rejected {d : Diagnostic} (h : validateAndGetManager req.backend req.name = .error d)
      (hjobs : jobsOf i log = []) : Answered req i log ([], .error d)
  /-- The job may still be there. -/
  | timeout : Answered req i log ([req.record .err "timeout"], .ok ⟨"timeout", .unknown⟩)
  | failed (e : BackendError) :
      Answered req i log ([req.record .err "err"], .error (backendErrorToDiagnostic e))
  /-- The job was queued, and it or another job of the unit has ended. -/
  | done {path : String} (hjobs : jobsOf i log = [(req.verb.job, req.name, path)])
      {first : JobRemoved} (hmem : .removed (some first) ∈ log)
      (hfirst : first.job = path ∨ first.unit = req.name) {state : ServiceState}
      (hstate : ∃ status, finalState status first.result = .ok state) :
      Answered req i log ([req.record .ok "ok"], .ok ⟨"ok", state⟩)

theorem removed_of_mem_signals {args : Option JobRemoved} (h : args ∈ signals log) :
    .removed args ∈ log := by
  obtain ⟨e, he, heq⟩ := List.mem_filterMap.mp h
  cases e with
  | queued => cases heq
  | removed args' => exact Option.some.inj heq ▸ he

theorem validateAndGetManager_with {be : SystemBackend} {name : String} {mgr : ServiceManager}
    (h : validateAndGetManager be name = .ok (mgr, name)) (mgr' : ServiceManager) :
    validateAndGetManager { be with services := some mgr' } name = .ok (mgr', name) := by
  unfold validateAndGetManager at h ⊢
  cases hname : unitName name with
  | none =>
      rw [hname] at h
      cases h
  | some name' => rfl

/-- **The report of a call**: a record, and what the caller is told. -/
theorem Returned.answered [DecidableEq ι] {i : ι} (hjobs : jobsOf i log = call.jobs req)
    {mgr : ServiceManager} (h : validateAndGetManager req.backend req.name = .ok (mgr, req.name))
    {returned : Option (Except BackendError ServiceState)}
    (hreturned : ∀ r, returned = some r → Returned req log call r) :
    Answered req i log (req.report mgr returned) := by
  unfold ServiceRequest.report runServiceMutation
  dsimp only
  rw [validateAndGetManager_with h]
  dsimp only
  cases returned with
  | none => exact .timeout
  | some r =>
      have hcall (mgr : ServiceManager) (r) : req.verb.call
          { mgr with start := fun _ ↦ r, stop := fun _ ↦ r, restart := fun _ ↦ r }
            req.name = r := by
        cases req.verb <;> rfl
      rw [hcall, if_neg (by rintro ⟨⟩)]
      obtain ⟨bus, hheard, hr⟩ := hreturned r rfl
      cases r with
      | error e => exact .failed e
      | ok state =>
          have hvalid : isSystemdUnitName req.name = true := by
            by_contra hnot
            rw [systemdCall, if_neg hnot] at hr
            cases hr
          rw [systemdCall_of_valid hvalid] at hr
          obtain ⟨path, first, hsubmit, hmem, htaken, hstate⟩ := exists_of_runJob_eq_ok hr.symm
          obtain ⟨opened, -, hsignals⟩ := hheard.signals
          have hjob : jobsOf i log = [(req.verb.job, req.name, path)] := by
            rw [hjobs, hheard.submit path hsubmit]
            rfl
          refine .done hjob (List.mem_of_mem_drop (removed_of_mem_signals (hsignals.subset hmem)))
            ?_ ⟨_, hstate⟩
          rw [JobRemoved.isTaken, Bool.or_eq_true, beq_iff_eq, beq_iff_eq] at htaken
          exact htaken

theorem Told.answered [DecidableEq ι] {i : ι} (hjobs : jobsOf i log = call.jobs req)
    {o : List AuditEvent × Except Diagnostic ServiceOutcomeDto} (h : Told req log call o) :
    Answered req i log o := by
  cases h with
  | rejected hd => exact .rejected hd hjobs
  | reported hmgr hreturned => exact Returned.answered hjobs hmgr hreturned

/-- The signal of its job is still to be heard by a request that waits. -/
theorem RequestTask.Known.unheard [DecidableEq ι] {i : ι} {t : RequestTask} (h : t.Known req i log)
    {path : String} {heard : Nat} (hstage : t.stage = .waiting opened path heard)
    {args : JobRemoved} (hmem : .removed (some args) ∈ log) (hpath : args.job = path) :
    some args ∈ (signals (log.drop opened)).drop heard := by
  have hat := h.stage
  rw [hstage] at hat
  obtain ⟨hcall, hopened, others, rfl, ⟨rest, hrest⟩, hnone⟩ := hat
  rw [← List.take_append_drop opened log] at hmem
  have hmem' : some args ∈ signals (log.drop opened) := by
    rcases List.mem_append.mp hmem with hmem | hmem
    · exact absurd (congrArg some hpath) (hopened.before path hcall _ hmem)
    · exact List.mem_filterMap.mpr ⟨_, hmem, rfl⟩
  rw [← hrest, List.drop_left]
  rw [← hrest] at hmem'
  rcases List.mem_append.mp hmem' with hmem' | hmem'
  · have hnot := List.find?_eq_none.mp hnone args (List.reduceOption_mem_iff.mpr hmem')
    rw [JobRemoved.isTaken, hpath, beq_self_eq_true, Bool.true_or] at hnot
    exact absurd rfl hnot
  · exact hmem'

/-- **Service requests on the bus.**  In every interleaving of requests, answers and signals:

* no more than one job is made of a request, also after its end, with its verb and its name, which
  is one of systemd's;
* the caller of a request that has ended is told so with one record, and a state only if its job was
  queued and it, or another job of the unit, has ended; a request that is refused does nothing; and
* the end of its own job is never missed by a request that waits for it. -/
theorem service_requests [DecidableEq ι] {reqs : ι → ServiceRequest core} {s : ServiceRequests ι}
    (hrun : ServiceRequests.Run reqs .new s) (i : ι) :
    (jobsOf i s.log = [] ∨ isSystemdUnitName (reqs i).name = true ∧
      ∃ path, jobsOf i s.log = [((reqs i).verb.job, (reqs i).name, path)]) ∧
    (∀ o, (s.tasks i).outcome = some o → Answered (reqs i) i s.log o) ∧
    ∀ opened path heard, (s.tasks i).stage = .waiting opened path heard →
      ∀ args : JobRemoved, .removed (some args) ∈ s.log → args.job = path →
        some args ∈ (signals (s.log.drop opened)).drop heard := by
  have hknown := ServiceRequests.Run.inv hrun i
  refine ⟨?_, fun o ho ↦ (hknown.told o ho).answered hknown.jobs, fun opened path heard hstage ↦ ?_⟩
  · rw [hknown.jobs]
    cases hcall : (s.tasks i).call with
    | notSent | sent => exact .inl rfl
    | answered reply =>
        cases reply with
        | error msg => exact .inl rfl
        | ok path => exact .inr ⟨hknown.valid (by rw [hcall]; rintro ⟨⟩), path, rfl⟩
  · exact fun args hmem hpath ↦ hknown.unheard hstage hmem hpath

end

/-! ## One request -/

namespace ServiceRequests

variable {core : ScopeSets} {req : ServiceRequest core} {log : List (BusEvent Unit)}
  {t t' : RequestTask}

theorem update_unit (t t' : RequestTask) :
    Function.update (fun _ : Unit ↦ t) () t' = fun _ ↦ t' := by
  funext ⟨⟩
  exact Function.update_self _ _ _

theorem Run.one {s : ServiceRequests Unit} (hrun : Run (fun _ : Unit ↦ req) s ⟨fun _ ↦ t, log⟩)
    (h : RequestTask.Step req log t t') : Run (fun _ ↦ req) s ⟨fun _ ↦ t', log⟩ :=
  hrun.tail (update_unit t t' ▸ Step.task (s := ⟨fun _ ↦ t, log⟩) () h)

theorem Run.queue {s : ServiceRequests Unit} (hrun : Run (fun _ : Unit ↦ req) s ⟨fun _ ↦ t, log⟩)
    (h : t.call = .sent) (path : String) (hpath : ∀ e ∈ log, e.path ≠ some path) :
    Run (fun _ ↦ req) s
      ⟨fun _ ↦ t.reply (.ok path), log ++ [.queued () req.verb.job req.name path]⟩ :=
  hrun.tail (update_unit t _ ▸ Step.queue (s := ⟨fun _ ↦ t, log⟩) () h hpath)

theorem Run.remove {s : ServiceRequests Unit} (hrun : Run (fun _ : Unit ↦ req) s ⟨fun _ ↦ t, log⟩)
    (args : Option JobRemoved) : Run (fun _ ↦ req) s ⟨fun _ ↦ t, log ++ [.removed args]⟩ :=
  hrun.tail (Step.remove args)

end ServiceRequests

/-- The manager of a host whose services are those of systemd. -/
def busManager : ServiceManager where
  list := fun _ _ _ ↦ .error .unsupported
  status := fun _ ↦ .error .unsupported
  start := fun _ ↦ .error .unsupported
  stop := fun _ ↦ .error .unsupported
  restart := fun _ ↦ .error .unsupported

/-- A request to start `nginx.service`. -/
def startNginx : ServiceRequest .lists where
  backend :=
    { host := ⟨.error .unavailable⟩, services := some busManager, packages := none, logs := none
      caps := ⟨true, false, false, false⟩ }
  clock := ⟨1700000000, 180⟩
  snap := .default
  subject := ⟨"user:admin", ["server.services.write"]⟩
  verb := .start
  name := "nginx.service"

/-- A signal about another unit comes before the job is submitted; its own is the second one. -/
theorem service_requests_nginx :
    ∃ s, ServiceRequests.Run (fun _ : Unit ↦ startNginx) .new s ∧
      jobsOf () s.log = [(.start, "nginx.service", "/job/1702")] ∧
      (s.tasks ()).outcome = some ([startNginx.record .ok "ok"], .ok ⟨"ok", .active⟩) ∧
      Answered startNginx () s.log ([startNginx.record .ok "ok"], .ok ⟨"ok", .active⟩) := by
  have hunit : unitName startNginx.name = some startNginx.name := by decide +kernel
  have hmgr : validateAndGetManager startNginx.backend startNginx.name =
      .ok (busManager, startNginx.name) := by
    rw [validateAndGetManager, hunit]
    rfl
  have hname : isSystemdUnitName startNginx.name = true := by decide +kernel
  have hopened : ServiceRequests.Run (fun _ : Unit ↦ startNginx) .new
      ⟨fun _ ↦ ⟨.submitted 0, .sent, none⟩,
        [.removed (some ⟨"/job/1701", "sshd.service", "done"⟩)]⟩ :=
    ((((((ServiceRequests.Run.one .refl (.begin rfl hmgr hname)).one (.connect rfl)).one
      (.subscribe rfl)).one (.openStream rfl)).remove _).one (.submit rfl))
  have hqueued := ((hopened.queue rfl "/job/1702" (by decide)).one (.queued rfl rfl)).remove
    (some ⟨"/job/1702", "nginx.service", "done"⟩)
  have hreturned := ((hqueued.one (.skip rfl rfl (by decide))).one
    (.take rfl rfl (by decide))).one (.answer rfl (.ok activeUnit))
  have hrun := hreturned.one (@RequestTask.Step.report _ _ _ _ _ (some _) rfl _ hmgr)
  exact ⟨_, hrun, rfl, rfl, (service_requests hrun ()).2.1 _ rfl⟩

end Vaiexia.Api
