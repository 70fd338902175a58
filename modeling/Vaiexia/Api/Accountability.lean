import Vaiexia.Api.PackageRequests
import Vaiexia.Audit.Emission

/-!
# From a package request to the audit files

The machine of `Vaiexia.Api.PackageRequests` with the audit sink and its writer: what the handlers
and the jobs log is what they emit, among whatever else the daemon emits, and the writer is told to
stop at some moment.

`accountability` says what the files have in the end of a job whose end somebody could see before.
As in `Vaiexia.Audit.Sessions` the writer has opened its file, meets no I/O error and comes to its
end; a daemon whose audit file fails it loses records, and says so only in its own log.
-/

namespace Vaiexia.Api

open Vaiexia.Lib Vaiexia.Audit Vaiexia.Auth Vaiexia.Backend Vaiexia.Privd
open Vaiexia.Lib.Utf8

/-! ## The registry of the daemon -/

namespace Mutations

variable {ι : Type} [DecidableEq ι] {core : ScopeSets} {reqs : ι → PackageRequest core}
  {ids : ι → JobId} {s : Mutations ι} {i : ι}

omit [DecidableEq ι] in
/-- A job that is stored in the registry is stored by its task. -/
theorem Simulated.stored {r : Registry ι} (h : Simulated reqs s r)
    {result : Except Diagnostic Unit} (hi : r.phase i = .stored result) :
    ∃ event, s.task i = .stored event := by
  have hfollows := h.follows i
  rw [hi] at hfollows
  generalize s.task i = t at hfollows ⊢
  cases hfollows with
  | stored => exact ⟨_, rfl⟩

/-- **A job whose end can be seen** is stored, and its status is that of what its call returned. -/
theorem Run.stored_of_status (hids : Function.Injective ids)
    (hrun : Run reqs ids (start .new) s) {status : JobStatus}
    (hstatus : s.inner.status (ids i).text = some status) (hover : status.state ≠ .running) :
    (∃ event, s.task i = .stored event) ∧ ∃ mgr, (reqs i).backend.packages = some mgr ∧
      status = terminalStatus (ids i).text ((reqs i).job.run mgr (reqs i).jobClock).2 := by
  have htexts : Function.Injective fun i ↦ (ids i).text := JobId.text_injective.comp hids
  obtain ⟨r, hregistry, hsimulated⟩ := Run.follows hrun
  rw [← hsimulated.inner] at hstatus
  rcases (Registry.Run.inv htexts hregistry).status_cases htexts hstatus with
    ⟨-, rfl⟩ | ⟨result, hstored, rfl⟩
  · exact absurd rfl hover
  · obtain ⟨-, mgr, hmgr, rfl⟩ := hsimulated.completed hstored
    exact ⟨hsimulated.stored hstored, mgr, hmgr, rfl⟩

/-- What a step stores, it does not log. -/
theorem Step.stored_of_log {s' : Mutations ι} {j : ι} (hstep : Step reqs ids j s s')
    {e : ι × AuditEvent} (hlog : s'.log = s.log ++ [e]) {event : AuditEvent}
    (hi : s'.task i = .stored event) : s.task i = .stored event := by
  have hgrown : s.log ≠ s.log ++ [e] := fun heq ↦ by simpa using congrArg List.length heq
  cases hstep with
  | decide | store => exact absurd hlog hgrown
  | answer => exact hi
  | work =>
      dsimp only at hi
      by_cases hne : i = j
      · subst hne
        rw [Function.update_self] at hi
        cases hi
      · rwa [Function.update_of_ne hne] at hi

end Mutations

/-! ## The daemon with its trail -/

/-- Who emits: the handler of a request, its job, or anything else in the daemon. -/
inductive Emitter (ι ρ : Type) where
  | handler (i : ι)
  | job (i : ι)
  | other (r : ρ)
deriving DecidableEq

/-- Who emits an event of a request. -/
def emitter {ι ρ : Type} (i : ι) (ev : AuditEvent) : Emitter ι ρ :=
  if ev.kind = .job then .job i else .handler i

/-- An entry of the log of the daemon, with who emitted it. -/
def logEntry {ι ρ : Type} (e : ι × AuditEvent) : Emitter ι ρ × AuditEvent := (emitter e.1 e.2, e.2)

/-- The machine, and the sink of the daemon. -/
structure Trail (ι κ ρ : Type) where
  machine : Machine ι κ
  sink : SinkState (Emitter ι ρ)

namespace Trail

variable {ι κ ρ : Type} [DecidableEq ι] [DecidableEq ρ]

/-- One step of the machine, of another part of the daemon that emits, or of the writer.  What a
handler or a job logs, it sends at that moment; one that was refused goes on to count that before
it does anything else. -/
inductive Step (blake3 : Bytes → Bytes32) (w : Writer) (capacity : Nat)
    (move : Machine ι κ → Machine ι κ → Prop) : Trail ι κ ρ → Trail ι κ ρ → Prop
  | machine {s : Trail ι κ ρ} {m : Machine ι κ} (h : move s.machine m)
      (hlog : m.daemon.log = s.machine.daemon.log)
      (hcounts : ∀ i, s.sink.refused (.job i) ≠ none →
        m.daemon.task i = s.machine.daemon.task i) :
      Step blake3 w capacity move s { s with machine := m }
  | record {s : Trail ι κ ρ} {m : Machine ι κ} {sink : SinkState (Emitter ι ρ)} {i : ι}
      {ev : AuditEvent} (h : move s.machine m)
      (hlog : m.daemon.log = s.machine.daemon.log ++ [(i, ev)])
      (hsend : TrySend capacity (emitter i ev) ev s.sink sink) :
      Step blake3 w capacity move s ⟨m, sink⟩
  | count {s : Trail ι κ ρ} {sink : SinkState (Emitter ι ρ)} {e : Emitter ι ρ}
      (h : EmitStep capacity e s.sink sink) (hcounts : s.sink.refused e ≠ none) :
      Step blake3 w capacity move s { s with sink }
  | other {s : Trail ι κ ρ} {sink : SinkState (Emitter ι ρ)} {r : ρ}
      (h : EmitStep capacity (.other r) s.sink sink) :
      Step blake3 w capacity move s { s with sink }
  | close {s : Trail ι κ ρ} {sink : SinkState (Emitter ι ρ)} (h : CloseStep s.sink sink) :
      Step blake3 w capacity move s { s with sink }
  | writer {s : Trail ι κ ρ} {sink : SinkState (Emitter ι ρ)}
      (h : WriterStep blake3 w s.sink sink) :
      Step blake3 w capacity move s { s with sink }

/-- Any interleaving. -/
abbrev Run (blake3 : Bytes → Bytes32) (w : Writer) (capacity : Nat)
    (move : Machine ι κ → Machine ι κ → Prop) : Trail ι κ ρ → Trail ι κ ρ → Prop :=
  Relation.ReflTransGen (Step blake3 w capacity move)

/-- Before the first request, with a writer that starts. -/
def start (file : WriterState) : Trail ι κ ρ := ⟨.new, .start file⟩

section Invariant

variable {blake3 : Bytes → Bytes32} {w : Writer} {capacity : Nat} {file : WriterState}
  {s s' : Trail ι κ ρ}

/-- Whatever is done, the machine moves and the sink takes steps of its own. -/
theorem Step.projections {move : Machine ι κ → Machine ι κ → Prop}
    (hstep : Step blake3 w capacity move s s') :
    Relation.ReflTransGen move s.machine s'.machine ∧
      SinkRun blake3 w capacity s.sink s'.sink := by
  cases hstep with
  | machine h => exact ⟨.single h, .refl⟩
  | record h _ hsend => exact ⟨.single h, .single (.inl ⟨_, hsend.emitStep⟩)⟩
  | count h | other h => exact ⟨.refl, .single (.inl ⟨_, h⟩)⟩
  | close h => exact ⟨.refl, .single (.inr (.inl h))⟩
  | writer h => exact ⟨.refl, .single (.inr (.inr h))⟩

theorem Run.projections {move : Machine ι κ → Machine ι κ → Prop}
    (hrun : Run blake3 w capacity move s s') :
    Relation.ReflTransGen move s.machine s'.machine ∧
      SinkRun blake3 w capacity s.sink s'.sink := by
  induction hrun with
  | refl => exact ⟨.refl, .refl⟩
  | tail _ hstep ih => exact ⟨ih.1.trans hstep.projections.1, ih.2.trans hstep.projections.2⟩

end Invariant

/-! ## What became of the log -/

section Emitted

variable {blake3 : Bytes → Bytes32} {w : Writer} {capacity : Nat} {file : WriterState}
  {core : ScopeSets} {fromSlice : Bytes → Option Json} {cfg : Config}
  {reqs : ι → PackageRequest core} {ids : ι → JobId} {conn : ι → κ}
  {calls : κ → Option (PackageOp × String)} [DecidableEq κ] {s s' : Trail ι κ ρ}

omit [DecidableEq ι] [DecidableEq ρ] in
theorem emitter_eq_job {i j : ι} {ev : AuditEvent}
    (h : (emitter i ev : Emitter ι ρ) = .job j) : i = j ∧ ev.kind = .job := by
  unfold emitter at h
  by_cases hkind : ev.kind = .job
  · rw [if_pos hkind] at h
    exact ⟨Emitter.job.inj h, hkind⟩
  · rw [if_neg hkind] at h
    cases h

/-- The invariant: every record is accounted for, and a job that is stored has nothing left to
count. -/
structure Inv (s : Trail ι κ ρ) : Prop where
  emitted : ∃ accepted counted,
    Emitted (s.machine.daemon.log.map logEntry) accepted counted s.sink
  stored : ∀ i event, s.machine.daemon.task i = .stored event → s.sink.refused (.job i) = none

omit [DecidableEq ι] [DecidableEq ρ] [DecidableEq κ] in
theorem Inv.start (file : WriterState) : Inv (start file : Trail ι κ ρ) where
  emitted := ⟨[], [], .start file⟩
  stored := fun _ _ _ ↦ rfl

/-- A step of an emit is about one emitter, and counting ends it. -/
theorem refused_of_emitStep {e f : Emitter ι ρ} {sink sink' : SinkState (Emitter ι ρ)}
    (h : EmitStep capacity e sink sink') (hf : sink.refused f = none)
    (hne : f = e → sink.refused e ≠ none) : sink'.refused f = none := by
  have hother : f ≠ e := fun heq ↦ hne heq (heq ▸ hf)
  cases h with
  | accept | shutdown => exact hf
  | refuse | count =>
      show Function.update sink.refused e _ f = none
      rwa [Function.update_of_ne hother]

omit [DecidableEq κ] in
/-- What one emitter does with its sink. -/
theorem Inv.emitStep (h : Inv s) {e : Emitter ι ρ} {sink : SinkState (Emitter ι ρ)}
    (hstep : EmitStep capacity e s.sink sink)
    (he : ∀ i, Emitter.job i = e → s.sink.refused e ≠ none) : Inv { s with sink } where
  emitted := by
    obtain ⟨accepted, counted, hemitted⟩ := h.emitted
    obtain ⟨counted', hemitted'⟩ := hstep.emitted hemitted
    exact ⟨accepted, counted', hemitted'⟩
  stored := fun i event hi ↦ refused_of_emitStep hstep (h.stored i event hi) (he i)

/-- Sending a record of another emitter refuses a job nothing. -/
theorem refused_of_trySend {e f : Emitter ι ρ} {ev : AuditEvent}
    {sink sink' : SinkState (Emitter ι ρ)} (h : TrySend capacity e ev sink sink') (hne : f ≠ e) :
    sink'.refused f = sink.refused f := by
  cases h with
  | accepted => rfl
  | refused => exact Function.update_of_ne hne _ _

/-- **A record is accounted for** from the moment that it is logged. -/
theorem Inv.record (h : Inv s) {m : Machine ι κ} {sink : SinkState (Emitter ι ρ)} {i : ι}
    {ev : AuditEvent} (hbefore : Mutations.Inv reqs ids s.machine.daemon)
    (hafter : Mutations.Inv reqs ids m.daemon)
    (hmove : Machine.Step fromSlice cfg reqs ids conn calls s.machine m)
    (hlog : m.daemon.log = s.machine.daemon.log ++ [(i, ev)])
    (hsend : TrySend capacity (emitter i ev) ev s.sink sink) : Inv (⟨m, sink⟩ : Trail ι κ ρ) := by
  have hkept : ∀ j event, m.daemon.task j = .stored event →
      s.machine.daemon.task j = .stored event := by
    intro j event hj
    cases hmove with
    | daemon hstep => exact hstep.stored_of_log hlog hj
    | helper => exact hj
  refine ⟨?_, fun j event hj ↦ ?_⟩
  · obtain ⟨accepted, counted, hemitted⟩ := h.emitted
    obtain ⟨accepted', hemitted'⟩ := hsend.emitted hemitted
    refine ⟨accepted', counted, ?_⟩
    rw [hlog, List.map_append]
    exact hemitted'
  · have hne : (.job j : Emitter ι ρ) ≠ emitter i ev := by
      intro heq
      obtain ⟨rfl, hkind⟩ := emitter_eq_job heq.symm
      -- the job would have two records
      have hrecords := hafter.jobs i
      rw [hlog, Mutations.records_concat, if_pos ⟨rfl, hkind⟩, hbefore.jobs i,
        hkept i event hj, hj] at hrecords
      simpa using congrArg List.length hrecords
    rw [refused_of_trySend hsend hne]
    exact h.stored j event (hkept j event hj)

omit [DecidableEq ι] [DecidableEq ρ] [DecidableEq κ] in
/-- The writer does nothing to the emitters. -/
theorem Inv.sink (h : Inv s) {sink : SinkState (Emitter ι ρ)}
    (hemitted : ∀ entries accepted counted, Emitted entries accepted counted s.sink →
      Emitted entries accepted counted sink)
    (hrefused : sink.refused = s.sink.refused) : Inv { s with sink } where
  emitted := by
    obtain ⟨accepted, counted, hbefore⟩ := h.emitted
    exact ⟨accepted, counted, hemitted _ _ _ hbefore⟩
  stored := by
    intro i event hi
    show sink.refused (.job i) = none
    rw [hrefused]
    exact h.stored i event hi

/-- **Every run keeps the invariant.** -/
theorem Run.inv (hrun : Run blake3 w capacity
    (Machine.Step fromSlice cfg reqs ids conn calls) (start file : Trail ι κ ρ) s) : Inv s := by
  induction hrun with
  | refl => exact .start file
  | @tail s s' hrun hstep ih =>
      have hbefore := Mutations.Run.inv (Machine.Run.daemon (Run.projections hrun).1)
      have hafter := Mutations.Run.inv
        (Machine.Run.daemon ((Run.projections hrun).1.trans hstep.projections.1))
      cases hstep with
      | machine hmove hlog hcounts =>
          refine ⟨?_, fun i event hi ↦ ?_⟩
          · dsimp only
            rw [hlog]
            exact ih.emitted
          · by_contra hrefused
            rw [hcounts i hrefused] at hi
            exact hrefused (ih.stored i event hi)
      | record hmove hlog hsend => exact ih.record hbefore hafter hmove hlog hsend
      | count hemit hcounts => exact ih.emitStep hemit fun _ _ ↦ hcounts
      | other hemit => exact ih.emitStep hemit (by rintro i ⟨⟩)
      | close hclose =>
          refine ih.sink (fun _ _ _ ↦ hclose.emitted) ?_
          cases hclose
          rfl
      | writer hwrite =>
          refine ih.sink (fun _ _ _ ↦ hwrite.emitted) ?_
          cases hwrite <;> rfl

end Emitted

/-! ## What the files have in the end -/

/-- What the record of a job says: who asked for what, with which capability, and how it ended. -/
structure Tells {core : ScopeSets} (req : PackageRequest core) (r : Except BackendError Unit)
    (ev : AuditEvent) : Prop where
  kind : ev.kind = .job
  subject : ev.subject = sanitize (subjectLabel req.subject req.jobSnap)
  capKeyId : ev.capKeyId = (capKeyId req.subject).map sanitize
  method : ev.method = some (sanitize req.verb.method)
  decision : ev.decision = .ok ↔ r = .ok ()
  detail : ev.detail = some (sanitize s!"pkg={req.name} outcome={Machine.outcomeWord r}")

theorem Tells.of_run {core : ScopeSets} {req : PackageRequest core} (mgr : PackageManager) :
    Tells req (req.verb.call mgr req.name) (req.job.run mgr req.jobClock).1 where
  kind := (req.job.run_event mgr req.jobClock).1
  subject := by
    unfold PackageJob.run
    cases req.job.capKeyId <;> rfl
  capKeyId := by
    have hkey : req.job.capKeyId = Auth.capKeyId req.subject := rfl
    unfold PackageJob.run
    rw [hkey]
    cases Auth.capKeyId req.subject <;> rfl
  method := by
    unfold PackageJob.run
    cases req.job.capKeyId <;> rfl
  decision := (req.job.run_event mgr req.jobClock).2.1
  detail := Machine.run_detail _ _ _

section Accountable

variable [DecidableEq κ] {core : ScopeSets} {allowlistFile : Except IoError Bytes} {cfg : Config}
  {reqs : ι → PackageRequest core} {ids : ι → JobId} {conn : ι → κ}
  {calls : κ → Option (PackageOp × String)} {blake3 : Bytes → Bytes32} {w : Writer}
  {capacity : Nat} {file : WriterState} {s t : Trail ι κ ρ}

/-- A job whose end can be seen has logged its record, which was accepted or counted. -/
theorem Run.exists_record {fromStr : List Char → Option Json} (hread : Json.ReadsBack fromStr)
    (hload : loadAllowlist allowlistFile = .ok cfg.allowlist) (hids : Function.Injective ids)
    (hcalls : ∀ i, calls (conn i) = some ((reqs i).verb.op, (reqs i).name))
    (hrun : Run blake3 w capacity
      (Machine.Step (fun bs ↦ (decode bs).bind fromStr) cfg reqs ids conn calls) (start file) t)
    {accepted counted : List (Emitter ι ρ × AuditEvent)}
    (hemitted : Emitted (t.machine.daemon.log.map logEntry) accepted counted t.sink)
    {i : ι} {status : JobStatus}
    (hstatus : t.machine.daemon.inner.status (ids i).text = some status)
    (hover : status.state ≠ .running) :
    ∃ ev r, Machine.Returned cfg reqs conn t.machine i r ∧
      status = terminalStatus (ids i).text (r.mapError backendErrorToDiagnostic) ∧
      Tells (reqs i) r ev ∧ ((.job i, ev) ∈ accepted ∨ (.job i, ev) ∈ counted) := by
  have hmachine := (Run.projections hrun).1
  have hdaemon := Machine.Run.daemon hmachine
  obtain ⟨⟨event, hstored⟩, mgr, hmgr, rfl⟩ := hdaemon.stored_of_status hids hstatus hover
  have hcompleted : t.machine.daemon.Completed i := .inr ⟨event, hstored⟩
  obtain ⟨-, -, mgr', hmgr', hrecords⟩ := (Mutations.Run.inv hdaemon).of_completed hcompleted
  cases hmgr.symm.trans hmgr'
  have hkind := ((reqs i).job.run_event mgr (reqs i).jobClock).1
  refine ⟨((reqs i).job.run mgr (reqs i).jobClock).1, _,
    Machine.Run.returned hread hload hcalls hmachine hcompleted hmgr, rfl, .of_run mgr, ?_⟩
  have hmem : (i, ((reqs i).job.run mgr (reqs i).jobClock).1) ∈ t.machine.daemon.log := by
    have hrecord := List.mem_singleton_self (i, ((reqs i).job.run mgr (reqs i).jobClock).1)
    rw [← hrecords] at hrecord
    exact (List.mem_filter.mp hrecord).1
  have hentry := hemitted.each _ (List.mem_map_of_mem hmem)
  rw [logEntry, emitter, if_pos hkind, (Run.inv hrun).stored i event hstored] at hentry
  rcases hentry with haccepted | hcounted | hrefused
  · exact .inl haccepted
  · exact .inr hcounted
  · cases hrefused

/-- **Accountability.**  Where the writer opened its file, neither this session nor one before met
an I/O error in it, and the files have less than 2^64 records: whatever requests, jobs, commands and
other parts of the daemon do in between, of every job whose end somebody could see before the daemon
was told to stop, the record was written when the writer is done (the daemon waits three seconds for
it), as one of its own in a chain that `verify_chain` accepts, or a loss record stands for it; and
that record says who asked for what with which capability, and with what outcome, which is what
became of the command. -/
theorem accountability {fromStr : List Char → Option Json} (hread : Json.ReadsBack fromStr)
    (hload : loadAllowlist allowlistFile = .ok cfg.allowlist) (hids : Function.Injective ids)
    (hcalls : ∀ i, calls (conn i) = some ((reqs i).verb.op, (reqs i).name))
    (hmax : 1 ≤ w.maxBytes) {ends : List (SessionEnd (Emitter ι ρ))} {d : Disk Nat}
    (hsessions : Sessions blake3 fromStr w capacity ends d)
    (hopen : WriterState.open blake3 fromStr d = .ok file)
    (hbefore : Run blake3 w capacity
      (Machine.Step (fun bs ↦ (decode bs).bind fromStr) cfg reqs ids conn calls) (start file) t)
    (hended : t.sink.ghost.ended = none)
    (hafter : Run blake3 w capacity
      (Machine.Step (fun bs ↦ (decode bs).bind fromStr) cfg reqs ids conn calls) t s)
    (hdone : s.sink.pc = .done)
    (hlen : ((ends ++ [SessionEnd.recorded s.sink]).flatMap SessionEnd.written).length < 2 ^ 64) :
    ∃ rs : List Record, (rs = [] ∨
        Agrees blake3 fromStr w (SegmentedLog.empty.pushAll w.full rs) s.sink.file.disk) ∧
      ∃ accepted counted : List (Emitter ι ρ × AuditEvent),
        (accepted.map Prod.snd).Sublist (rs.map Record.event) ∧
        (counted.map Prod.snd).Sublist (lostOf s.sink.out.flatten) ∧
        ∀ i status, t.machine.daemon.inner.status (ids i).text = some status →
          status.state ≠ .running →
            ∃ ev r, Machine.Returned cfg reqs conn t.machine i r ∧
              status = terminalStatus (ids i).text (r.mapError backendErrorToDiagnostic) ∧
              Tells (reqs i) r ev ∧ ((.job i, ev) ∈ accepted ∨ (.job i, ev) ∈ counted) := by
  obtain ⟨-, hbeforeSink⟩ := Run.projections hbefore
  obtain ⟨-, hafterSink⟩ := Run.projections hafter
  have hall := hsessions.recorded hopen (hbeforeSink.trans hafterSink) hdone
  obtain ⟨rs, hrs, hleft⟩ := hall.leftBy hread hlen
  have hlt : rs.length < 2 ^ 64 := by
    have hcount : rs.length =
        ((ends ++ [SessionEnd.recorded s.sink]).flatMap SessionEnd.written).length := by
      simpa using congrArg List.length hrs
    omega
  obtain ⟨accepted, counted, hemitted⟩ := (Run.inv hbefore).emitted
  obtain ⟨haccepted, hcounted⟩ := hemitted.written hended hbeforeSink hafterSink hdone
  refine ⟨rs, ?_, accepted, counted, ?_, hcounted, fun i status hstatus hover ↦
    hbefore.exists_record hread hload hids hcalls hemitted hstatus hover⟩
  · rcases hleft with ⟨hempty, -⟩ | ⟨file', hdisk, hconsistent⟩
    · exact .inl (by simpa using congrArg SegmentedLog.written hempty)
    · rw [← hdisk]
      exact .inr (agrees_of_consistent hread hmax hlt hconsistent)
  · rw [hrs, List.flatMap_append, List.map_append, List.flatMap_singleton]
    exact haccepted.trans (List.sublist_append_right _ _)

/-- Steps of the helper while nobody has to count and all jobs are there. -/
theorem Run.runHelper {fromSlice : Bytes → Option Json}
    (hrun : Run blake3 w capacity (Machine.Step fromSlice cfg reqs ids conn calls) (start file) t)
    (htasks : ∀ i, t.machine.daemon.task i ≠ .absent) {helper : Helper κ}
    (h : Helper.Run fromSlice cfg calls t.machine.helper helper) :
    Run blake3 w capacity (Machine.Step fromSlice cfg reqs ids conn calls) (start file)
      { t with machine := { t.machine with helper } } := by
  induction h with
  | refl => exact hrun
  | tail _ hstep ih =>
      exact ih.tail (.machine (.helper hstep fun i hi ↦ absurd hi (htasks i)) rfl fun _ _ ↦ rfl)

end Accountable

/-- A sink with one event in its queue. -/
def oneQueued (file : WriterState) (ev : AuditEvent) : SinkState (Emitter ι ρ) :=
  { SinkState.start file with
    queue := [.event ev]
    ghost := ⟨[ev], [], [], none⟩ }

/-- A writer that has not begun is told to stop, and writes the one event that is in the queue. -/
theorem exists_stopped (blake3 : Bytes → Bytes32) (w : Writer)
    (move : Machine ι κ → Machine ι κ → Prop) (m : Machine ι κ) (file : WriterState)
    (ev : AuditEvent) (r : ρ) :
    ∃ s : Trail ι κ ρ, Run blake3 w 1 move ⟨m, oneQueued file ev⟩ s ∧ s.sink.pc = .done ∧
      s.sink.out = [[.event ev]] := by
  have hwritten : Run blake3 w 1 move (⟨m, oneQueued file ev⟩ : Trail ι κ ρ) _ :=
    (((Relation.ReflTransGen.single (.writer (.swap 0 rfl))).tail
      (.writer (.blockingRecv rfl rfl rfl))).tail
      (.writer (.tryRecvNone rfl (by decide : 1 < 64) rfl))).tail (.writer (.writeBatch rfl))
  have hdrained := ((hwritten.tail
    (.other (r := r) (.shutdown rfl rfl Nat.one_pos (by rintro ⟨⟩)))).tail
    (.writer (.swap 0 rfl))).tail (.writer (.blockingRecvShutdown rfl rfl rfl))
  have hdone := ((hdrained.tail (.writer (.drainNone rfl rfl))).tail
    (.writer (.lastSwap 0 rfl))).tail (.writer (.nothingLeft rfl rfl))
  exact ⟨_, hdone, rfl, rfl⟩

/-- `nginx` is installed, its record is accepted, and the daemon is told to stop and does. -/
theorem exists_recorded (blake3 : Bytes → Bytes32) (w : Writer) {cfg : Config} {name : PackageName}
    (hname : name.text = "nginx") (hpermits : cfg.allowlist.permits name.text = true) :
    ∃ t s : Trail Unit Unit Unit,
      Run blake3 w 1 (Machine.Step (fun bs ↦ (decode bs).bind Json.parse) cfg
        (fun _ ↦ Machine.nginxRequest) (fun _ ↦ Mutations.sampleId) id
        (fun _ ↦ some (.install, "nginx"))) (start emptyFile) t ∧
      t.sink.ghost.ended = none ∧
      t.machine.daemon.inner.status Mutations.sampleId.text =
        some (terminalStatus Mutations.sampleId.text (.ok ())) ∧
      Run blake3 w 1 (Machine.Step (fun bs ↦ (decode bs).bind Json.parse) cfg
        (fun _ ↦ Machine.nginxRequest) (fun _ ↦ Mutations.sampleId) id
        (fun _ ↦ some (.install, "nginx"))) t s ∧
      s.sink.pc = .done ∧ ∃ ev, s.sink.out = [[.event ev]] := by
  rcases Machine.nginxRequest.decide_cases Mutations.sampleId .new with
    ⟨-, -, -, -, hnone | hnone | hbusy⟩ | ⟨ev, hdecide, -⟩
  · have hsome : (PackageName.parse "nginx").isSome = true := by decide
    rw [show PackageName.parse "nginx" = none from hnone] at hsome
    cases hsome
  · cases hnone
  · exact absurd rfl hbusy
  · obtain ⟨helper, hhelper, hresult⟩ :=
      @Helper.exists_done cfg _ Json.readsBack_parse PackageOp.install name hpermits
    rw [hname] at hhelper
    have hdecided : Run blake3 w 1 (Machine.Step (fun bs ↦ (decode bs).bind Json.parse) cfg
        (fun _ ↦ Machine.nginxRequest) (fun _ ↦ Mutations.sampleId) id
        (fun _ ↦ some (.install, "nginx"))) (start emptyFile : Trail Unit Unit Unit) _ :=
      .single (.machine (.daemon (i := ()) (.decide rfl hdecide)
        fun job mgr hrunning ↦ by cases hrunning) rfl fun _ hrefused ↦ absurd rfl hrefused)
    have hcalled := hdecided.runHelper (fun _ habsent ↦ by cases habsent) hhelper
    have hworked := hcalled.tail (.record (.daemon (i := ()) (.work rfl rfl)
      fun job mgr hrunning hmgr _ ↦ by
        cases hrunning
        cases hmgr
        exact hresult) rfl (.accepted rfl rfl Nat.one_pos (by rintro ⟨⟩)))
    have hstored := hworked.tail (.machine (.daemon (i := ()) (.store rfl)
      fun job mgr hrunning ↦ by cases hrunning) rfl fun _ hrefused ↦ absurd rfl hrefused)
    obtain ⟨s, hrun, hdone, hout⟩ :=
      @exists_stopped Unit Unit Unit _ _ blake3 w (Machine.Step _ cfg _ _ id _) _ emptyFile _ ()
    exact ⟨_, s, hstored, rfl, rfl, hrun, hdone, _, hout⟩

/-- The record of the installation of `nginx` is in the files. -/
theorem accountability_nginx :
    ∃ (rs : List Record) (d : Disk Nat),
      Agrees (fun _ ↦ Bytes32.zero) Json.parse (.new 400 2)
        (SegmentedLog.empty.pushAll (Writer.new 400 2).full rs) d ∧
      ∃ r ∈ rs, r.event.kind = .job ∧
        r.event.detail = some (sanitize "pkg=nginx outcome=ok") := by
  obtain ⟨name, hname⟩ := Option.isSome_iff_exists.mp
    (by decide : (PackageName.parse "nginx").isSome)
  have htext := PackageName.parse_eq_some hname
  let cfg : Config := ⟨990, .apt, .permissive⟩
  have hpermits : cfg.allowlist.permits name.text = true := by
    rw [htext]
    decide
  have hload : loadAllowlist (.error .notFound) = .ok cfg.allowlist := rfl
  have hids : Function.Injective fun _ : Unit ↦ Mutations.sampleId := fun _ _ _ ↦ rfl
  obtain ⟨t, s, hbefore, hended, hstatus, hafter, hdone, ev, hout⟩ :=
    exists_recorded (fun _ ↦ Bytes32.zero) (.new 400 2) htext hpermits
  have hlen :
      (([] ++ [SessionEnd.recorded s.sink]).flatMap SessionEnd.written).length < 2 ^ 64 := by
    rw [List.nil_append, List.flatMap_singleton, SessionEnd.written, hout]
    exact Nat.one_lt_two_pow (by decide)
  have hmax : 1 ≤ (Writer.new 400 2).maxBytes := by decide
  obtain ⟨rs, hagrees, accepted, counted, haccepted, hcounted, hall⟩ :=
    accountability (t := t) (s := s) Json.readsBack_parse hload hids (fun _ ↦ rfl) hmax .nil rfl
      hbefore hended hafter hdone hlen
  obtain ⟨ev', r, -, hterminal, htells, hrecorded⟩ := hall () _ hstatus (by rintro ⟨⟩)
  obtain rfl : r = .ok () := by
    cases r with
    | ok value => rfl
    | error e => cases hterminal
  -- nothing was refused
  have hnone : counted = [] := by
    rw [hout] at hcounted
    exact List.map_eq_nil_iff.mp (List.sublist_nil.mp hcounted)
  rw [hnone] at hrecorded
  have hmem := haccepted.subset
    (List.mem_map_of_mem (hrecorded.resolve_right List.not_mem_nil))
  obtain ⟨record, hrecord, rfl⟩ := List.mem_map.mp hmem
  rcases hagrees with rfl | hagrees
  · cases hrecord
  · exact ⟨rs, _, hagrees, record, hrecord, htells.kind, htells.detail⟩

end Trail

end Vaiexia.Api
