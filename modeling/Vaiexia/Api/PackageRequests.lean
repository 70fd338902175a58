import Vaiexia.Api.PackageAudit
import Vaiexia.Privd.Operations

/-!
# Package requests from end to end

The handlers and jobs of the daemon, with its audit trail and its registry, together with the helper
that runs the commands: `Mutations` on one side of the socket and `Helper` on the other.  The future
of a job is a call of an operation on a connection of its own.  It connects and writes only while
its task runs, and the task ends with what the call has returned.

`Mutations` follows the registry of `Vaiexia.Api.Jobs` (`Step.follows`), so what is known of the one
holds of the other.  `package_requests` is what those who ask for the status of a job and those who
read the log may conclude about the machine.
-/

namespace Vaiexia.Api

open Vaiexia.Lib Vaiexia.Audit Vaiexia.Auth Vaiexia.Backend Vaiexia.Privd
open Vaiexia.Lib.Utf8

/-! ## The registry of the daemon -/

theorem JobId.text_injective : Function.Injective JobId.text := by
  rintro ⟨text, hlen, hchars⟩ ⟨text', hlen', hchars'⟩ (rfl : text = text')
  rfl

/-- The slot was free when a request was accepted. -/
theorem PackageRequest.running_eq_none {core : ScopeSets} {req : PackageRequest core} {id : JobId}
    {inner inner' : RegistryInner} {job : PackageJob} {events : List AuditEvent}
    {result : Except Diagnostic JobStartDto}
    (h : req.decide id inner = (inner', some job, events, result)) : inner.running = none := by
  unfold PackageRequest.decide runPackageMutation at h
  dsimp only at h
  split at h
  · cases h
  · split at h
    · cases h
    · cases hrunning : inner.running with
      | none => rfl
      | some other =>
          simp only [RegistryInner.tryStart, hrunning] at h
          cases h

namespace Registry

variable {ι : Type} {ids : ι → String} {r : Registry ι} {i : ι}

/-- Whoever asks for a job is told what has become of it. -/
theorem Inv.status_cases (hids : Function.Injective ids) (h : Inv ids r) {status : JobStatus}
    (hstatus : r.inner.status (ids i) = some status) :
    (r.phase i).Active ∧ status = initialStatus (ids i) ∨
      ∃ result, r.phase i = .stored result ∧ status = terminalStatus (ids i) result := by
  unfold RegistryInner.status at hstatus
  split at hstatus
  · rename_i stored hlookup
    obtain rfl := Option.some.inj hstatus
    have hmem := (Recent.rtake_suffix _ _).subset ((h.recent.lookup _ _).mp hlookup)
    obtain ⟨⟨j, result⟩, hjob, heq⟩ := List.mem_map.mp hmem
    obtain ⟨hid, rfl⟩ := Prod.mk.inj heq
    obtain rfl : j = i := hids hid
    exact .inr ⟨result, (h.completed j result).mp hjob, rfl⟩
  · split at hstatus
    · rename_i hrunning
      obtain rfl := Option.some.inj hstatus
      obtain ⟨j, hid, hactive⟩ := h.holder _ hrunning
      obtain rfl : j = i := hids hid
      exact .inl ⟨hactive, rfl⟩
    · cases hstatus

end Registry

namespace Mutations

/-- The job of the request is not stored. -/
def Underway {ι : Type} (s : Mutations ι) (i : ι) : Prop :=
  (∃ job, s.task i = .running job) ∨ ∃ event result, s.task i = .ended event result

/-- What the registry has of the job of a request. -/
inductive Follows {core : ScopeSets} (req : PackageRequest core) : TaskPhase → JobPhase → Prop
  | absent : Follows req .absent .idle
  | running (job : PackageJob) : Follows req (.running job) .spawned
  | ended (event : AuditEvent) (result : Except Diagnostic Unit) :
      Follows req (.ended event result) (.finished result)
  | stored {mgr : PackageManager} (hmgr : req.backend.packages = some mgr) :
      Follows req (.stored (req.job.run mgr req.jobClock).1)
        (.stored (req.job.run mgr req.jobClock).2)

/-- The registry is the one of the daemon. -/
structure Simulated {ι : Type} {core : ScopeSets} (reqs : ι → PackageRequest core)
    (s : Mutations ι) (r : Registry ι) : Prop where
  inner : r.inner = s.inner
  follows : ∀ i, Follows (reqs i) (s.task i) (r.phase i)

section Simulation

variable {ι : Type} [DecidableEq ι] {core : ScopeSets} {reqs : ι → PackageRequest core}
  {ids : ι → JobId} {s s' : Mutations ι} {r r' : Registry ι} {i : ι}

/-- The job of one request goes on, and so does the call of the registry. -/
theorem Simulated.move (h : Simulated reqs s r) {t : TaskPhase} {p : JobPhase}
    (hphase : r'.phase = Function.update r.phase i p) (hfollows : Follows (reqs i) t p) (j : ι) :
    Follows (reqs j) (Function.update s.task i t j) (r'.phase j) := by
  rw [hphase]
  by_cases hj : j = i
  · subst hj
    rw [Function.update_self, Function.update_self]
    exact hfollows
  · rw [Function.update_of_ne hj, Function.update_of_ne hj]
    exact h.follows j

/-- **Every step of the daemon is one of its registry**, or several. -/
theorem Step.follows (hstep : Step reqs ids i s s') (hinv : Inv reqs ids s)
    (h : Simulated reqs s r) :
    ∃ r', Registry.Run (fun i ↦ (ids i).text) r r' ∧ Simulated reqs s' r' := by
  have hfollows := h.follows i
  cases hstep with
  | @decide inner job events result hi hdecide =>
      have hconsistent := hinv.consistent i
      rw [hi] at hconsistent
      have habsent := hconsistent.task_of_waiting
      rw [habsent] at hfollows
      have hidle : r.phase i = .idle := by
        generalize r.phase i = p at hfollows
        cases hfollows
        rfl
      rcases (reqs i).decide_cases (ids i) s.inner with ⟨ev, d, hcase, -, -⟩ | ⟨ev, hcase, -, -, -⟩
      · -- the registry is not changed
        cases hdecide.symm.trans hcase
        refine ⟨r, .refl, h.inner, h.move (p := .idle) ?_ .absent⟩
        rw [← hidle, Function.update_eq_self]
      · have hfree := PackageRequest.running_eq_none hcase
        rw [← h.inner] at hfree
        cases hdecide.symm.trans hcase
        have haccept : Registry.Run (fun i ↦ (ids i).text) r _ := .single ⟨i, .accept hidle hfree⟩
        have hannounce := haccept.tail ⟨i, .announce (Registry.set_phase_self _ _ _)⟩
        have hspawn := hannounce.tail ⟨i, .spawn (Registry.set_phase_self _ _ _)⟩
        refine ⟨_, hspawn, ?_, h.move (p := .spawned) ?_ (.running _)⟩
        · simp only [Registry.set, h.inner]
        · simp only [Registry.set, Function.update_idem]
  | answer => exact ⟨r, .refl, h.inner, h.follows⟩
  | @work job mgr hi hmgr =>
      rw [hi] at hfollows
      have hspawned : r.phase i = .spawned := by
        generalize r.phase i = p at hfollows
        cases hfollows
        rfl
      exact ⟨_, .single ⟨i, .finish _ hspawned⟩, h.inner, h.move rfl (.ended _ _)⟩
  | @store event result hi =>
      have hconsistent := hinv.consistent i
      rw [hi] at hfollows hconsistent
      generalize s.handler i = phase at hconsistent
      have hfinished : r.phase i = .finished result := by
        generalize r.phase i = p at hfollows
        cases hfollows
        rfl
      refine ⟨_, .single ⟨i, .store hfinished⟩, ?_, h.move (p := .stored result) rfl ?_⟩
      · simp only [h.inner]
      · cases hconsistent with
        | accepted hev hname hpackages hh ht =>
            cases ht with
            | ended hmgr => exact .stored hmgr

/-- **Every run of the daemon is one of its registry.** -/
theorem Run.follows (hrun : Run reqs ids (start .new) s) :
    ∃ r, Registry.Run (fun i ↦ (ids i).text) .new r ∧ Simulated reqs s r := by
  induction hrun with
  | refl => exact ⟨.new, .refl, rfl, fun _ ↦ .absent⟩
  | tail hrun hmove ih =>
      obtain ⟨i, hstep⟩ := hmove
      obtain ⟨r, hregistry, hsimulated⟩ := ih
      obtain ⟨r', hmore, hsimulated'⟩ := hstep.follows (Run.inv hrun) hsimulated
      exact ⟨r', hregistry.trans hmore, hsimulated'⟩

omit [DecidableEq ι] in
/-- **A job is underway** exactly if it is active for the registry. -/
theorem Simulated.active_iff (h : Simulated reqs s r) (i : ι) :
    (r.phase i).Active ↔ s.Underway i := by
  have hfollows := h.follows i
  unfold Underway
  generalize s.task i = t at hfollows
  generalize r.phase i = p at hfollows
  cases hfollows with
  | absent | stored => exact iff_of_false id (by rintro (⟨job, h⟩ | ⟨event, result, h⟩) <;> cases h)
  | running job => exact iff_of_true trivial (.inl ⟨job, rfl⟩)
  | ended event result => exact iff_of_true trivial (.inr ⟨event, result, rfl⟩)

omit [DecidableEq ι] in
/-- A job that is stored in the registry is complete. -/
theorem Simulated.completed (h : Simulated reqs s r) {i : ι} {result : Except Diagnostic Unit}
    (hi : r.phase i = .stored result) :
    s.Completed i ∧ ∃ mgr, (reqs i).backend.packages = some mgr ∧
      result = ((reqs i).job.run mgr (reqs i).jobClock).2 := by
  have hfollows := h.follows i
  rw [hi] at hfollows
  unfold Completed
  generalize s.task i = t at hfollows
  cases hfollows with
  | stored hmgr => exact ⟨.inr ⟨_, rfl⟩, _, hmgr, rfl⟩

/-- **One job at a time.** -/
theorem Run.underway_unique (hids : Function.Injective ids) (hrun : Run reqs ids (start .new) s)
    {i j : ι} (hi : s.Underway i) (hj : s.Underway j) : i = j := by
  have htexts : Function.Injective fun i ↦ (ids i).text := JobId.text_injective.comp hids
  obtain ⟨r, hregistry, hsimulated⟩ := Run.follows hrun
  exact (Registry.Run.inv htexts hregistry).active_unique htexts
    ((hsimulated.active_iff i).mpr hi) ((hsimulated.active_iff j).mpr hj)

/-- **The status of a job** is that of what it is underway with, or has ended with. -/
theorem Run.status (hids : Function.Injective ids) (hrun : Run reqs ids (start .new) s) {i : ι}
    {status : JobStatus} (hstatus : s.inner.status (ids i).text = some status) :
    s.Underway i ∧ status = initialStatus (ids i).text ∨
      s.Completed i ∧ ∃ mgr, (reqs i).backend.packages = some mgr ∧
        status = terminalStatus (ids i).text ((reqs i).job.run mgr (reqs i).jobClock).2 := by
  have htexts : Function.Injective fun i ↦ (ids i).text := JobId.text_injective.comp hids
  obtain ⟨r, hregistry, hsimulated⟩ := Run.follows hrun
  rw [← hsimulated.inner] at hstatus
  rcases (Registry.Run.inv htexts hregistry).status_cases htexts hstatus with
    ⟨hactive, rfl⟩ | ⟨result, hstored, rfl⟩
  · exact .inl ⟨(hsimulated.active_iff i).mp hactive, rfl⟩
  · obtain ⟨hcompleted, mgr, hmgr, rfl⟩ := hsimulated.completed hstored
    exact .inr ⟨hcompleted, mgr, hmgr, rfl⟩

end Simulation

end Mutations

/-! ## The daemon and the helper -/

/-- The operation of a verb. -/
def PackageVerb.op : PackageVerb → PackageOp
  | install => .install
  | remove => .remove

/-- The machine: the daemon, and the helper with the connections to it. -/
structure Machine (ι κ : Type) where
  daemon : Mutations ι
  helper : Helper κ

namespace Machine

variable {ι κ : Type} [DecidableEq ι] [DecidableEq κ] {core : ScopeSets}

/-- Before the first request. -/
def new : Machine ι κ where
  daemon := .start .new
  helper := .new

/-- One step of the daemon or of the helper.  `conn` has the connection of the job of a request, and
`calls` what is called on each connection; other connections may be those of other processes. -/
inductive Step (fromSlice : Bytes → Option Json) (cfg : Config) (reqs : ι → PackageRequest core)
    (ids : ι → JobId) (conn : ι → κ) (calls : κ → Option (PackageOp × String)) :
    Machine ι κ → Machine ι κ → Prop
  /-- A job ends with what its call has returned. -/
  | daemon {s : Machine ι κ} {daemon : Mutations ι} {i : ι}
      (h : Mutations.Step reqs ids i s.daemon daemon)
      (hcall : ∀ job mgr, s.daemon.task i = .running job → (reqs i).backend.packages = some mgr →
        (∀ job, daemon.task i ≠ .running job) →
          (s.helper.links (conn i)).result = some (job.verb.call mgr job.name)) :
      Step fromSlice cfg reqs ids conn calls s { s with daemon }
  /-- The call of a job does nothing before the job is there. -/
  | helper {s : Machine ι κ} {helper : Helper κ}
      (h : Helper.Step fromSlice cfg calls s.helper helper)
      (hcall : ∀ i, s.daemon.task i = .absent →
        helper.links (conn i) = s.helper.links (conn i)) :
      Step fromSlice cfg reqs ids conn calls s { s with helper }

/-- Any interleaving of requests, jobs, connections and commands. -/
abbrev Run (fromSlice : Bytes → Option Json) (cfg : Config) (reqs : ι → PackageRequest core)
    (ids : ι → JobId) (conn : ι → κ) (calls : κ → Option (PackageOp × String)) :
    Machine ι κ → Machine ι κ → Prop :=
  Relation.ReflTransGen (Step fromSlice cfg reqs ids conn calls)

section Invariant

variable {fromSlice : Bytes → Option Json} {cfg : Config} {reqs : ι → PackageRequest core}
  {ids : ι → JobId} {conn : ι → κ} {calls : κ → Option (PackageOp × String)} {s s' : Machine ι κ}

/-- What the daemon does is a run of it. -/
theorem Run.daemon (hrun : Run fromSlice cfg reqs ids conn calls new s) :
    Mutations.Run reqs ids (.start .new) s.daemon := by
  induction hrun with
  | refl => exact .refl
  | tail _ hstep ih =>
      cases hstep with
      | daemon h => exact ih.tail ⟨_, h⟩
      | helper => exact ih

/-- What the helper does is a run of it. -/
theorem Run.helper (hrun : Run fromSlice cfg reqs ids conn calls new s) :
    Helper.Run fromSlice cfg calls .new s.helper := by
  induction hrun with
  | refl => exact .refl
  | tail _ hstep ih =>
      cases hstep with
      | daemon => exact ih
      | helper h => exact ih.tail h

/-- The invariant: connections are made for jobs, and a job that is over has what its call has
returned. -/
structure Linked (reqs : ι → PackageRequest core) (conn : ι → κ) (s : Machine ι κ) : Prop where
  absent : ∀ i, s.daemon.task i = .absent → s.helper.links (conn i) = .new
  returned : ∀ i mgr, s.daemon.Completed i → (reqs i).backend.packages = some mgr →
    (s.helper.links (conn i)).result = some ((reqs i).verb.call mgr (reqs i).name)

omit [DecidableEq ι] [DecidableEq κ] in
theorem Linked.new : Linked reqs conn (new : Machine ι κ) where
  absent := fun _ _ ↦ rfl
  returned := by
    rintro i mgr (⟨event, result, hended⟩ | ⟨event, hstored⟩)
    · cases hended
    · cases hstored

omit [DecidableEq κ] in
/-- A step of the daemon is about one request. -/
theorem Linked.daemon (h : Linked reqs conn s) (hinv : Mutations.Inv reqs ids s.daemon)
    {daemon : Mutations ι} {i : ι} (hstep : Mutations.Step reqs ids i s.daemon daemon)
    (hcall : ∀ job mgr, s.daemon.task i = .running job → (reqs i).backend.packages = some mgr →
      (∀ job, daemon.task i ≠ .running job) →
        (s.helper.links (conn i)).result = some (job.verb.call mgr job.name)) :
    Linked reqs conn { s with daemon } := by
  have hother : ∀ j, j ≠ i → daemon.task j = s.daemon.task j := by
    intro j hj
    cases hstep with
    | answer => rfl
    | decide | work | store => exact Function.update_of_ne hj _ _
  refine ⟨fun j hj ↦ ?_, fun j mgr hj hmgr ↦ ?_⟩
  · by_cases hne : j = i
    · subst hne
      refine h.absent j ?_
      cases hstep with
      | decide hi =>
          have hconsistent := hinv.consistent j
          rw [hi] at hconsistent
          exact hconsistent.task_of_waiting
      | answer => exact hj
      | work | store =>
          dsimp only at hj
          rw [Function.update_self] at hj
          cases hj
    · rw [hother j hne] at hj
      exact h.absent j hj
  · unfold Mutations.Completed at hj
    by_cases hne : j = i
    · subst hne
      cases hstep with
      | @decide inner job events result hi hdecide =>
          dsimp only at hj
          rw [Function.update_self] at hj
          cases job <;> rcases hj with ⟨event, result, hended⟩ | ⟨event, hstored⟩ <;> contradiction
      | answer => exact h.returned j mgr hj hmgr
      | @work job mgr' hi hmgr' =>
          have hconsistent := hinv.consistent j
          rw [hi] at hconsistent
          obtain rfl := hconsistent.job_of_running.1
          refine hcall _ mgr hi hmgr fun job hrunning ↦ ?_
          dsimp only at hrunning
          rw [Function.update_self] at hrunning
          cases hrunning
      | store hi => exact h.returned j mgr (.inl ⟨_, _, hi⟩) hmgr
    · rw [hother j hne] at hj
      exact h.returned j mgr hj hmgr

/-- **Every step keeps the invariant.** -/
theorem Run.linked (hrun : Run fromSlice cfg reqs ids conn calls new s) : Linked reqs conn s := by
  induction hrun with
  | refl => exact .new
  | @tail s s' hrun hstep ih =>
      cases hstep with
      | daemon h hcall => exact ih.daemon (Mutations.Run.inv (Run.daemon hrun)) h hcall
      | helper h hcall =>
          refine ⟨fun i hi ↦ (hcall i hi).trans (ih.absent i hi), fun i mgr hi hmgr ↦ ?_⟩
          exact h.result_eq (ih.returned i mgr hi hmgr)

end Invariant

/-! ## What is known of a request -/

section Outcome

variable {allowlistFile : Except IoError Bytes} {cfg : Config} {reqs : ι → PackageRequest core}
  {ids : ι → JobId} {conn : ι → κ} {calls : κ → Option (PackageOp × String)} {s : Machine ι κ}

/-- The call of the job of a request has returned, and what it has returned is true of the
machine. -/
def Returned (cfg : Config) (reqs : ι → PackageRequest core) (conn : ι → κ) (s : Machine ι κ)
    (i : ι) (r : Except BackendError Unit) : Prop :=
  Link.Outcome cfg (reqs i).verb.op (reqs i).name (s.helper.links (conn i)).spawned
    (s.helper.links (conn i)).reaped r

/-- **A job that is over has returned.** -/
theorem Run.returned {fromStr : List Char → Option Json} (hread : Json.ReadsBack fromStr)
    (hload : loadAllowlist allowlistFile = .ok cfg.allowlist)
    (hcalls : ∀ i, calls (conn i) = some ((reqs i).verb.op, (reqs i).name))
    (hrun : Run (fun bs ↦ (decode bs).bind fromStr) cfg reqs ids conn calls new s) {i : ι}
    {mgr : PackageManager} (hi : s.daemon.Completed i)
    (hmgr : (reqs i).backend.packages = some mgr) :
    Returned cfg reqs conn s i ((reqs i).verb.call mgr (reqs i).name) := by
  have hlink := (Helper.Run.inv hread hload (Run.helper hrun)).links (conn i)
  exact hlink.outcome _ _ _ (hcalls i) ((Run.linked hrun).returned i mgr hi hmgr)

omit [DecidableEq ι] [DecidableEq κ] in
/-- Only a command that has succeeded makes the status of a job that of success. -/
theorem Returned.of_succeeded {i : ι} {r : Except BackendError Unit} {id : String}
    (h : Returned cfg reqs conn s i r)
    (hstate : (terminalStatus id (r.mapError backendErrorToDiagnostic)).state = .succeeded) :
    (s.helper.links (conn i)).spawned = [(reqs i).verb.op.argv cfg.kind (reqs i).name] ∧
      ∃ exit, (s.helper.links (conn i)).reaped = [exit] ∧ exit.success = true := by
  cases h with
  | done hspawned hreaped hsuccess => exact ⟨hspawned, _, hreaped, hsuccess⟩
  | invalid | failed | refused | notStarted | unavailable => cases hstate

/-- The word for what a call has returned. -/
def outcomeWord : Except BackendError Unit → String
  | .ok () => "ok"
  | .error e => backendOutcome e

/-- The detail of the record of a job. -/
theorem run_detail (job : PackageJob) (mgr : PackageManager) (clock : EventClock) :
    (job.run mgr clock).1.detail =
      some (sanitize s!"pkg={job.name} outcome={outcomeWord (job.verb.call mgr job.name)}") := by
  unfold PackageJob.run
  rcases job.capKeyId with _ | k
  all_goals rcases job.verb.call mgr job.name with e | ⟨⟩ <;> rfl

/-- **Package requests from end to end.**  In every interleaving of requests, jobs, connections,
commands and restarts of the helper:

* one job at a time is underway, and nothing is done for a request that has no job;
* the `job` record of a request is that of what its call has returned, and so is the status of its
  job, which is there only once the record is; and
* if that status is `Succeeded`, then the command of the request, and no other one, was started for
  the request, once, and its process has exited with success. -/
theorem package_requests {fromStr : List Char → Option Json} (hread : Json.ReadsBack fromStr)
    (hload : loadAllowlist allowlistFile = .ok cfg.allowlist) (hids : Function.Injective ids)
    (hcalls : ∀ i, calls (conn i) = some ((reqs i).verb.op, (reqs i).name))
    (hrun : Run (fun bs ↦ (decode bs).bind fromStr) cfg reqs ids conn calls new s) :
    (∀ i j, s.daemon.Underway i → s.daemon.Underway j → i = j) ∧
    ∀ i, (¬ s.daemon.Started i → s.helper.links (conn i) = .new) ∧
      (∀ ev, (i, ev) ∈ s.daemon.log → ev.kind = .job →
        ∃ r, Returned cfg reqs conn s i r ∧ (ev.decision = .ok ↔ r = .ok ()) ∧
          ev.detail = some (sanitize s!"pkg={(reqs i).name} outcome={outcomeWord r}")) ∧
      (∀ status, s.daemon.inner.status (ids i).text = some status →
        s.daemon.Underway i ∧ status = initialStatus (ids i).text ∨
          (∃ ev, Mutations.records i .job s.daemon.log = [(i, ev)]) ∧
            ∃ r, Returned cfg reqs conn s i r ∧
              status = terminalStatus (ids i).text (r.mapError backendErrorToDiagnostic)) ∧
      ∀ status, s.daemon.inner.status (ids i).text = some status → status.state = .succeeded →
        (s.helper.links (conn i)).spawned = [(reqs i).verb.op.argv cfg.kind (reqs i).name] ∧
          ∃ exit, (s.helper.links (conn i)).reaped = [exit] ∧ exit.success = true := by
  have hdaemon := Run.daemon hrun
  have hinv := Mutations.Run.inv hdaemon
  refine ⟨fun i j ↦ Mutations.Run.underway_unique hids hdaemon,
    fun i ↦ ⟨fun hi ↦ (Run.linked hrun).absent i (not_not.mp hi), ?_, ?_, ?_⟩⟩
  · intro ev hmem hkind
    have hrecord : (i, ev) ∈ Mutations.records i .job s.daemon.log :=
      List.mem_filter.mpr ⟨hmem, decide_eq_true ⟨rfl, hkind⟩⟩
    by_cases hcompleted : s.daemon.Completed i
    · obtain ⟨-, -, mgr, hmgr, hrecords⟩ := hinv.of_completed hcompleted
      rw [hrecords, List.mem_singleton, Prod.mk.injEq] at hrecord
      obtain ⟨-, rfl⟩ := hrecord
      exact ⟨_, Run.returned hread hload hcalls hrun hcompleted hmgr,
        ((reqs i).job.run_event mgr (reqs i).jobClock).2.1, run_detail _ _ _⟩
    · rw [hinv.of_not_completed hcompleted] at hrecord
      cases hrecord
  · intro status hstatus
    rcases Mutations.Run.status hids hdaemon hstatus with
      hunderway | ⟨hcompleted, mgr, hmgr, rfl⟩
    · exact .inl hunderway
    · obtain ⟨-, -, mgr', hmgr', hrecords⟩ := hinv.of_completed hcompleted
      exact .inr ⟨⟨_, hrecords⟩, _, Run.returned hread hload hcalls hrun hcompleted hmgr, rfl⟩
  · intro status hstatus hsucceeded
    rcases Mutations.Run.status hids hdaemon hstatus with
      ⟨-, rfl⟩ | ⟨hcompleted, mgr, hmgr, rfl⟩
    · cases hsucceeded
    · have hreturned := Run.returned hread hload hcalls hrun hcompleted hmgr
      exact hreturned.of_succeeded hsucceeded

/-- Steps of the helper are steps of the machine while all its jobs are there. -/
theorem Run.runHelper {fromSlice : Bytes → Option Json}
    (hrun : Run fromSlice cfg reqs ids conn calls new s)
    (htasks : ∀ i, s.daemon.task i ≠ .absent) {helper : Helper κ}
    (h : Helper.Run fromSlice cfg calls s.helper helper) :
    Run fromSlice cfg reqs ids conn calls new { s with helper } := by
  induction h with
  | refl => exact hrun
  | tail _ hstep ih => exact ih.tail (.helper hstep fun i hi ↦ absurd hi (htasks i))

end Outcome

/-- A machine that installs at once. -/
def readyManager : PackageManager where
  list := fun _ _ _ ↦ .error .unsupported
  install := fun _ ↦ .ok ()
  remove := fun _ ↦ .ok ()

/-- A request of an administrator to install `nginx`. -/
def nginxRequest : PackageRequest .lists where
  verb := .install
  name := "nginx"
  subject := ⟨"user:admin", ["server.packages.write"]⟩
  backend :=
    { host := ⟨.error .unavailable⟩, services := none, packages := some readyManager, logs := none
      caps := ⟨false, true, false, false⟩ }
  jobSnap := .default
  eventSnap := .default
  clock := ⟨1700000000, 180⟩
  jobClock := ⟨1700000300, 300000000⟩

/-- The request is served, and the status of its job is that of success. -/
theorem exists_succeeded {cfg : Config} {name : PackageName} (hname : name.text = "nginx")
    (hpermits : cfg.allowlist.permits name.text = true) :
    ∃ s : Machine Unit Unit,
      Run (fun bs ↦ (decode bs).bind Json.parse) cfg (fun _ ↦ nginxRequest)
        (fun _ ↦ Mutations.sampleId) id (fun _ ↦ some (.install, "nginx")) new s ∧
      s.daemon.inner.status Mutations.sampleId.text =
        some (terminalStatus Mutations.sampleId.text (.ok ())) := by
  rcases nginxRequest.decide_cases Mutations.sampleId .new with
    ⟨-, -, -, -, hnone | hnone | hbusy⟩ | ⟨ev, hdecide, -⟩
  · have hsome : (PackageName.parse "nginx").isSome = true := by decide
    rw [show PackageName.parse "nginx" = none from hnone] at hsome
    cases hsome
  · cases hnone
  · exact absurd rfl hbusy
  · obtain ⟨helper, hhelper, hresult⟩ :=
      @Helper.exists_done cfg _ Json.readsBack_parse PackageOp.install name hpermits
    rw [hname] at hhelper
    have haccept : Run (fun bs ↦ (decode bs).bind Json.parse) cfg (fun _ ↦ nginxRequest)
        (fun _ ↦ Mutations.sampleId) id (fun _ ↦ some (.install, "nginx"))
        (new : Machine Unit Unit) _ :=
      .single (.daemon (i := ()) (.decide rfl hdecide) fun job mgr hrunning ↦ by cases hrunning)
    have hcalled := haccept.runHelper (fun _ ↦ nofun) hhelper
    have hwork := hcalled.tail (.daemon (i := ()) (.work rfl rfl) fun job mgr hrunning hmgr _ ↦ by
      cases hrunning
      cases hmgr
      exact hresult)
    exact ⟨_, hwork.tail (.daemon (i := ()) (.store rfl) fun job mgr hrunning ↦ by cases hrunning),
      rfl⟩

/-- `nginx` is installed. -/
theorem package_requests_nginx :
    ∃ s : Machine Unit Unit,
      s.daemon.inner.status "16fd2706-8baf-433b-82eb-8c7fada847da" =
        some (terminalStatus "16fd2706-8baf-433b-82eb-8c7fada847da" (.ok ())) ∧
      (s.helper.links ()).spawned =
        [["/usr/bin/apt-get", "install", "-y", "--no-install-recommends", "--", "nginx"]] := by
  obtain ⟨name, hname⟩ := Option.isSome_iff_exists.mp
    (by decide : (PackageName.parse "nginx").isSome)
  have htext := PackageName.parse_eq_some hname
  let cfg : Config := ⟨990, .apt, .permissive⟩
  have hpermits : cfg.allowlist.permits name.text = true := by
    rw [htext]
    decide
  obtain ⟨s, hrun, hstatus⟩ := exists_succeeded htext hpermits
  have hload : loadAllowlist (.error .notFound) = .ok cfg.allowlist := rfl
  have hids : Function.Injective fun _ : Unit ↦ Mutations.sampleId := fun _ _ _ ↦ rfl
  obtain ⟨-, hall⟩ := @package_requests Unit Unit _ _ _ _ cfg (fun _ ↦ nginxRequest)
    (fun _ ↦ Mutations.sampleId) id (fun _ ↦ some (.install, "nginx")) s _ Json.readsBack_parse
    hload hids (fun _ ↦ rfl) hrun
  obtain ⟨-, -, -, hsucceeded⟩ := hall ()
  exact ⟨s, hstatus, (hsucceeded _ hstatus rfl).1⟩

end Machine

end Vaiexia.Api
