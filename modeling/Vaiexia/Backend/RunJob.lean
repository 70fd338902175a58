import Mathlib.Data.List.Infix
import Mathlib.Data.List.ReduceOption
import Vaiexia.Backend.Types

/-!
# Service jobs of systemd

`SystemdServices::run_job` of `crates/vaiexia-server/src/backend/systemd/linux.rs`.  What the bus
answers in one run is a `Bus`: the answers to the calls before the wait, the signals that come while
the wait lasts, and how it ends if none of them is taken.

The wait takes the first signal that has the path of the job or the name of the unit.  So the
outcome is that of the job itself exactly when the first signal of either kind has a result of the
same kind as the job's own (`runJob_own_iff`).
-/

namespace Vaiexia.Backend

/-! ## The bus -/

/-- The verbs of `run_job`. -/
inductive Verb where
  | start | stop | restart
deriving DecidableEq, Repr

/-- The arguments of a `JobRemoved` signal that are read. -/
structure JobRemoved where
  job : String
  unit : String
  result : String
deriving DecidableEq

/-- How a wait without a match ends. -/
inductive Ending where
  | closed | elapsed
deriving DecidableEq, Repr

/-- What the bus answers: an error by its text, and a signal with malformed arguments as `none`. -/
structure Bus where
  connect : Except String Unit
  subscribe : Except String Unit
  receiveJobRemoved : Except String Unit
  submit : Verb → String → Except String String
  signals : List (Option JobRemoved)
  ending : Ending
  status : String → Except BackendError UnitDetail

/-- `str::contains`. -/
def contains (text part : String) : Bool := decide (part.toList <:+: text.toList)

/-- `map_dbus_error`. -/
def mapDbusError (msg : String) : BackendError :=
  if contains msg "AccessDenied" || contains msg "PolicyKit" || contains msg "Authorization" then
    .denied
  else if contains msg "NoSuchUnit" || contains msg "not found" then .notFound
  else if contains msg "Timeout" || contains msg "timeout" then .timeout
  else .unavailable

/-- The mapping of an error of the submission. -/
def mapSubmitError (msg : String) : BackendError :=
  if contains msg "NoSuchUnit" then .notFound
  else if contains msg "AccessDenied" || contains msg "Authorization" then .denied
  else mapDbusError msg

/-! ## The wait -/

/-- The test that the wait makes of a signal. -/
def JobRemoved.isTaken (jobPath name : String) (args : JobRemoved) : Bool :=
  args.job == jobPath || args.unit == name

/-- The wait: the result that the first signal with the path or the name carries. -/
def awaitJob (jobPath name : String) (ending : Ending) :
    List (Option JobRemoved) → Except BackendError String
  | [] =>
      match ending with
      | .closed => .error .unavailable
      | .elapsed => .error .timeout
  | none :: signals => awaitJob jobPath name ending signals
  | some args :: signals =>
      if args.isTaken jobPath name then .ok args.result
      else awaitJob jobPath name ending signals

/-- The final state, with the answer to the query of the unit's status. -/
def finalState (status : Except BackendError UnitDetail) (jobResult : String) :
    Except BackendError ServiceState :=
  match jobResult with
  | "done" | "skipped" =>
      match status with
      | .ok detail => .ok detail.status.activeState
      | .error _ => .ok .unknown
  | "failed" => .ok .failed
  | "canceled" | "dependency" => .error .unavailable
  | _ => .ok .unknown

/-- `SystemdServices::run_job`. -/
def runJob (bus : Bus) (name : String) (verb : Verb) : Except BackendError ServiceState := do
  bus.connect.mapError mapDbusError
  bus.subscribe.mapError mapDbusError
  bus.receiveJobRemoved.mapError mapDbusError
  let jobPath ← (bus.submit verb name).mapError mapSubmitError
  let jobResult ← awaitJob jobPath name bus.ending bus.signals
  finalState (bus.status name) jobResult

/-! ## Kinds of results -/

/-- What a job result says. -/
inductive JobOutcome where
  | query | failed | unavailable | unknown
deriving DecidableEq, Repr

/-- The kind of a job result. -/
def jobOutcome (jobResult : String) : JobOutcome :=
  if jobResult = "done" ∨ jobResult = "skipped" then .query
  else if jobResult = "failed" then .failed
  else if jobResult = "canceled" ∨ jobResult = "dependency" then .unavailable
  else .unknown

/-- The final state by the kind of the result. -/
theorem finalState_eq (status : Except BackendError UnitDetail) (jobResult : String) :
    finalState status jobResult =
      match jobOutcome jobResult with
      | .query => .ok ((status.map fun detail ↦ detail.status.activeState).toOption.getD .unknown)
      | .failed => .ok .failed
      | .unavailable => .error .unavailable
      | .unknown => .ok .unknown := by
  by_cases hdone : jobResult = "done"
  · subst hdone
    cases status <;> rfl
  by_cases hskipped : jobResult = "skipped"
  · subst hskipped
    cases status <;> rfl
  by_cases hfailed : jobResult = "failed"
  · subst hfailed
    rfl
  by_cases hcanceled : jobResult = "canceled"
  · subst hcanceled
    rfl
  by_cases hdependency : jobResult = "dependency"
  · subst hdependency
    rfl
  have hunknown : jobOutcome jobResult = .unknown := by
    simp [jobOutcome, hdone, hskipped, hfailed, hcanceled, hdependency]
  rw [hunknown]
  simp only [finalState]

/-- A unit of which nothing is known but that it is active. -/
def activeUnit : UnitDetail where
  status :=
    { name := "", description := "", loadState := "", activeState := .active, subState := "" }
  sinceMs := none
  mainPid := none

/-- Results lead to the same final state, whatever the status is, exactly when they are of the same
kind. -/
theorem forall_finalState_eq_iff (result result' : String) :
    (∀ status, finalState status result = finalState status result') ↔
      jobOutcome result = jobOutcome result' := by
  constructor
  · intro h
    have hactive := h (.ok activeUnit)
    rw [finalState_eq, finalState_eq] at hactive
    cases hr : jobOutcome result <;> cases hr' : jobOutcome result' <;>
      simp_all [Except.map, Except.toOption, activeUnit]
  · intro h status
    rw [finalState_eq, finalState_eq, h]

/-! ## The signal that is taken -/

/-- The first signal that has the path or the name. -/
def firstTaken (jobPath name : String) (signals : List (Option JobRemoved)) : Option JobRemoved :=
  signals.reduceOption.find? fun args ↦ args.isTaken jobPath name

/-- **The wait takes the first signal** that has the path or the name, if there is one. -/
theorem awaitJob_of_firstTaken {jobPath name : String} (ending : Ending)
    {signals : List (Option JobRemoved)} {first : JobRemoved}
    (h : firstTaken jobPath name signals = some first) :
    awaitJob jobPath name ending signals = .ok first.result := by
  induction signals with
  | nil => cases h
  | cons signal signals ih =>
      cases signal with
      | none => exact ih h
      | some args =>
          rw [firstTaken, List.reduceOption_cons_of_some, List.find?_cons] at h
          rw [awaitJob]
          split at h
          · rename_i htaken
            rw [if_pos htaken, Option.some.inj h]
          · rename_i hnot
            rw [if_neg (by rw [hnot]; exact Bool.false_ne_true)]
            exact ih h

/-- If the signal of the job is among them, one is taken. -/
theorem exists_firstTaken {jobPath : String} (name : String) {signals : List (Option JobRemoved)}
    {own : JobRemoved} (hown : some own ∈ signals) (hpath : own.job = jobPath) :
    ∃ first, firstTaken jobPath name signals = some first := by
  refine Option.isSome_iff_exists.mp (List.find?_isSome.mpr ⟨own, ?_, ?_⟩)
  · exact List.reduceOption_mem_iff.mpr hown
  · rw [JobRemoved.isTaken, hpath, beq_self_eq_true, Bool.true_or]

/-- A run whose job was submitted and whose signal comes in time ends with the final state for the
result that is taken. -/
theorem runJob_of_firstTaken {bus : Bus} {name : String} {verb : Verb} {jobPath : String}
    (hconnect : bus.connect = .ok ()) (hsubscribe : bus.subscribe = .ok ())
    (hreceive : bus.receiveJobRemoved = .ok ()) (hsubmit : bus.submit verb name = .ok jobPath)
    {first : JobRemoved} (h : firstTaken jobPath name bus.signals = some first) :
    runJob bus name verb = finalState (bus.status name) first.result := by
  have hawait := awaitJob_of_firstTaken bus.ending h
  unfold runJob
  rw [hconnect, hsubscribe, hreceive, hsubmit]
  change (do
    let jobResult ← awaitJob jobPath name bus.ending bus.signals
    finalState (bus.status name) jobResult) = _
  rw [hawait]
  rfl

/-- **A service job reports its own result** exactly when the first signal that has the path of the
job or the name of the unit carries a result of the same kind as the signal of the job itself. -/
theorem runJob_own_iff (bus : Bus) (name : String) (verb : Verb) {jobPath : String}
    (hconnect : bus.connect = .ok ()) (hsubscribe : bus.subscribe = .ok ())
    (hreceive : bus.receiveJobRemoved = .ok ()) (hsubmit : bus.submit verb name = .ok jobPath)
    {own : JobRemoved} (hown : some own ∈ bus.signals) (hpath : own.job = jobPath) :
    (∀ status, runJob { bus with status } name verb = finalState (status name) own.result) ↔
      ∀ first, firstTaken jobPath name bus.signals = some first →
        jobOutcome first.result = jobOutcome own.result := by
  obtain ⟨first, hfirst⟩ := exists_firstTaken name hown hpath
  have hrun (status) :
      runJob { bus with status } name verb = finalState (status name) first.result :=
    @runJob_of_firstTaken { bus with status } name verb jobPath hconnect hsubscribe hreceive hsubmit
      first hfirst
  constructor
  · intro h first' hfirst'
    obtain rfl := Option.some.inj (hfirst.symm.trans hfirst')
    refine (forall_finalState_eq_iff _ _).mp fun status ↦ ?_
    exact (hrun fun _ ↦ status).symm.trans (h fun _ ↦ status)
  · intro h status
    rw [hrun]
    exact (forall_finalState_eq_iff _ _).mpr (h first hfirst) (status name)

/-! ## A restart that replaces a stop -/

/-- While `nginx.service` is being stopped, it is to be restarted: the job of the stop, with which
that of the restart cannot be merged, is canceled, and the one of the restart is done. -/
def replacingBus (canceled : String) : Bus where
  connect := .ok ()
  subscribe := .ok ()
  receiveJobRemoved := .ok ()
  submit := fun _ _ ↦ .ok "/org/freedesktop/systemd1/job/1702"
  signals :=
    [some ⟨"/org/freedesktop/systemd1/job/1701", canceled, "canceled"⟩,
      some ⟨"/org/freedesktop/systemd1/job/1702", "nginx.service", "done"⟩]
  ending := .elapsed
  status := fun _ ↦ .ok activeUnit

/-- The end of another unit's job is not taken. -/
theorem runJob_own_iff_sshd :
    runJob (replacingBus "sshd.service") "nginx.service" .restart = .ok .active := by
  have hown : some ⟨"/org/freedesktop/systemd1/job/1702", "nginx.service", "done"⟩
      ∈ (replacingBus "sshd.service").signals := List.mem_cons_of_mem _ List.mem_cons_self
  refine ((runJob_own_iff (replacingBus "sshd.service") "nginx.service" .restart rfl rfl rfl rfl
    hown rfl).mpr ?_) fun _ ↦ .ok activeUnit
  intro first hfirst
  have htaken : firstTaken "/org/freedesktop/systemd1/job/1702" "nginx.service"
      (replacingBus "sshd.service").signals
        = some ⟨"/org/freedesktop/systemd1/job/1702", "nginx.service", "done"⟩ := by decide
  rw [htaken] at hfirst
  rw [← Option.some.inj hfirst]

/-- The end of the unit's other job is: the restart is done, and reported as unavailable. -/
theorem not_forall_runJob_own :
    ¬ ∀ (bus : Bus) (name : String) (verb : Verb) (own : JobRemoved),
      bus.connect = .ok () → bus.subscribe = .ok () → bus.receiveJobRemoved = .ok () →
      bus.submit verb name = .ok own.job → some own ∈ bus.signals →
      (∀ args, some args ∈ bus.signals → args.job = own.job → args = own) →
      runJob bus name verb = finalState (bus.status name) own.result := by
  intro h
  have hrun := h (replacingBus "nginx.service") "nginx.service" .restart
    ⟨"/org/freedesktop/systemd1/job/1702", "nginx.service", "done"⟩ rfl rfl rfl rfl (by decide) ?_
  · revert hrun
    decide
  · intro args hmem hjob
    rcases List.mem_cons.mp hmem with heq | hmem
    · rw [Option.some.inj heq] at hjob
      exact absurd hjob (by decide)
    · exact Option.some.inj (List.mem_singleton.mp hmem)

end Vaiexia.Backend
