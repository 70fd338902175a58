import Vaiexia.Api.JobEvents
import Vaiexia.Events.Relay

/-!
# Job events

`JobRegistry` broadcasts the statuses of its jobs, and `jobs_pump::run` forwards them to the topic
`server.jobs`.  `job_events` says what a receiver of the topic can see of the jobs, whatever the
pump and the channels do.
-/

namespace Vaiexia.Events

open Vaiexia.Lib Vaiexia.Api Vaiexia.Auth Vaiexia.Backend

/-- `jobs_pump::run`, with the channel that `JobRegistry::new` makes. -/
def jobsFeed {β : Type} (topicCapacity : Nat) (payload : JobStatus → β) : Feed JobStatus β where
  capacity := 64
  topicCapacity := topicCapacity
  payload := payload

/-- The registry, and the pump with its channels. -/
structure JobFeed (ι ρ β : Type) where
  registry : Registry ι
  relay : Relay ρ JobStatus β

namespace JobFeed

variable {ι ρ β : Type}

/-- A registry without jobs, before the pump was started. -/
def new : JobFeed ι ρ β where
  registry := .new
  relay := .new

/-- The registry moves on, and what it broadcasts goes to its channel. -/
def broadcast (r : Registry ι) (f : JobFeed ι ρ β) : JobFeed ι ρ β where
  registry := r
  relay := (r.stream.drop f.registry.stream.length).foldl (fun s status ↦ s.publish status) f.relay

variable [DecidableEq ι] [DecidableEq ρ]

/-- One step of a job, of the pump, or of a receiver of the topic. -/
inductive Step (ids : ι → String) (feed : Feed JobStatus β) : JobFeed ι ρ β → JobFeed ι ρ β → Prop
  | job {f : JobFeed ι ρ β} {i : ι} {r : Registry ι} (h : Registry.Step ids i f.registry r) :
      Step ids feed f (f.broadcast r)
  | pump {f : JobFeed ι ρ β} {s : Relay ρ JobStatus β} (h : Relay.Step feed f.relay s)
      (hpub : s.published = f.relay.published) : Step ids feed f { f with relay := s }

/-- Any interleaving. -/
abbrev Run (ids : ι → String) (feed : Feed JobStatus β) : JobFeed ι ρ β → JobFeed ι ρ β → Prop :=
  Relation.ReflTransGen (Step ids feed)

/-! ## What the registry broadcasts -/

section Stream

variable {ids : ι → String} {r r' : Registry ι} {i : ι}

/-- A step of the registry broadcasts after what was broadcast before. -/
theorem stream_step (hstep : Registry.Step ids i r r') : r.stream <+: r'.stream := by
  cases hstep with
  | announce hi => exact List.prefix_append _ _
  | finish result hi => exact List.prefix_append _ _
  | refuse hi hbusy | accept hi hfree | spawn hi | store hi => exact List.prefix_rfl

omit [DecidableEq ι] in
/-- What is broadcast of a job has its identifier. -/
theorem id_of_mem_sent {id : String} {p : JobPhase} {status : JobStatus}
    (h : status ∈ Registry.sent id p) : status.id = id := by
  cases p with
  | idle | busy | accepted => cases h
  | announced | spawned =>
      rw [List.mem_singleton.mp h]
      rfl
  | finished result | stored result => rcases List.mem_pair.mp h with rfl | rfl <;> rfl

omit [DecidableEq ι] in
/-- Nothing of what is broadcast of other jobs is about this one. -/
theorem filter_eq_nil {completed : List (ι × Except Diagnostic Unit)}
    (h : ∀ job ∈ completed, ids job.1 ≠ ids i) :
    (completed.flatMap (Registry.pair ids)).filter (·.id = ids i) = [] := by
  rw [List.filter_eq_nil_iff]
  intro status hstatus
  obtain ⟨job, hjob, hpair⟩ := List.mem_flatMap.mp hstatus
  have hid : status.id = ids job.1 := id_of_mem_sent (p := .stored job.2) hpair
  rw [decide_eq_true_eq, hid]
  exact h job hjob

omit [DecidableEq ι] in
/-- Of a completed job both statuses were broadcast, each once. -/
theorem filter_eq_sent {before later : List (ι × Except Diagnostic Unit)}
    {result : Except Diagnostic Unit}
    (h : ((before ++ (i, result) :: later).map fun job ↦ ids job.1).Nodup) :
    ((before ++ (i, result) :: later).flatMap (Registry.pair ids)).filter (·.id = ids i)
      = Registry.sent (ids i) (.stored result) := by
  rw [List.map_append, List.map_cons, List.nodup_middle, List.nodup_cons, ← List.map_append] at h
  have hothers : ∀ job ∈ before ++ later, ids job.1 ≠ ids i := fun job hjob heq ↦
    h.1 (List.mem_map.mpr ⟨job, hjob, heq⟩)
  rw [List.flatMap_append, List.flatMap_cons, List.filter_append, List.filter_append,
    filter_eq_nil fun job hjob ↦ hothers job (List.mem_append_left _ hjob),
    filter_eq_nil fun job hjob ↦ hothers job (List.mem_append_right _ hjob), List.nil_append,
    List.append_nil]
  exact List.filter_eq_self.mpr fun status hstatus ↦
    decide_eq_true (id_of_mem_sent (p := .stored result) hstatus)

omit [DecidableEq ι] in
/-- A job that is not stored is not among the completed ones. -/
theorem filter_completed_eq_nil (hids : Function.Injective ids) (h : Registry.Inv ids r)
    (hi : ∀ result, r.phase i ≠ .stored result) :
    (r.completed.flatMap (Registry.pair ids)).filter (·.id = ids i) = [] := by
  refine filter_eq_nil fun job hjob heq ↦ ?_
  obtain rfl := hids heq
  exact hi job.2 ((h.completed job.1 job.2).mp hjob)

omit [DecidableEq ι] in
/-- What was broadcast of a job that does not have the slot. -/
theorem filter_completed (hids : Function.Injective ids) (h : Registry.Inv ids r)
    (hi : ¬ (r.phase i).Active) :
    (r.completed.flatMap (Registry.pair ids)).filter (·.id = ids i)
      = Registry.sent (ids i) (r.phase i) := by
  cases hphase : r.phase i with
  | idle | busy =>
      refine filter_completed_eq_nil hids h fun result hstored ↦ ?_
      rw [hphase] at hstored
      cases hstored
  | stored result =>
      obtain ⟨before, later, hsplit⟩ := List.append_of_mem ((h.completed i result).mpr hphase)
      have hnodup := h.recent.nodup
      rw [Registry.entries, List.map_map, hsplit] at hnodup
      rw [hsplit]
      exact filter_eq_sent hnodup
  | accepted | announced | spawned | finished result =>
      rw [hphase] at hi
      exact absurd trivial hi

omit [DecidableEq ι] in
/-- What was broadcast of a job follows from how far it has come. -/
theorem filter_stream (hids : Function.Injective ids) (h : Registry.Inv ids r) (i : ι) :
    r.stream.filter (·.id = ids i) = Registry.sent (ids i) (r.phase i) := by
  cases hrunning : r.inner.running with
  | none =>
      rw [h.quiet hrunning]
      refine filter_completed hids h fun hactive ↦ ?_
      have hslot := h.slot i hactive
      rw [hrunning] at hslot
      cases hslot
  | some id =>
      obtain ⟨j, -, hactive⟩ := h.holder id hrunning
      rw [h.stream j hactive, List.filter_append]
      by_cases hij : i = j
      · subst hij
        rw [filter_completed_eq_nil hids h, List.nil_append]
        · exact List.filter_eq_self.mpr fun status hstatus ↦ decide_eq_true (id_of_mem_sent hstatus)
        · rintro result hstored
          rw [hstored] at hactive
          exact hactive
      · rw [filter_completed hids h fun hi ↦ hij (h.active_unique hids hi hactive),
          List.filter_eq_nil_iff.mpr, List.append_nil]
        intro status hstatus
        rw [decide_eq_true_eq, id_of_mem_sent hstatus]
        exact fun heq ↦ hij (hids heq).symm

end Stream

/-! ## What a receiver sees -/

section Received

variable {ids : ι → String} {n : Nat} {payload : JobStatus → β} {f f' : JobFeed ι ρ β}

omit [DecidableEq ι] in
/-- The channel of the registry gets what is broadcast. -/
theorem run_publish (feed : Feed JobStatus β) (statuses : List JobStatus)
    (s : Relay ρ JobStatus β) :
    Relay.Run feed s (statuses.foldl (fun s status ↦ s.publish status) s) ∧
      (statuses.foldl (fun s status ↦ s.publish status) s).published
        = s.published ++ statuses := by
  induction statuses generalizing s with
  | nil => exact ⟨.refl, (List.append_nil _).symm⟩
  | cons status statuses ih =>
      obtain ⟨hrun, hpub⟩ := ih (s.publish status)
      refine ⟨.head (.publish status) hrun, ?_⟩
      rw [List.foldl_cons, hpub]
      exact List.append_assoc _ [status] statuses

/-- The invariant: both are reached by steps of their own, and the channel was given what the
registry has broadcast. -/
structure Inv (ids : ι → String) (feed : Feed JobStatus β) (f : JobFeed ι ρ β) : Prop where
  registry : Registry.Run ids .new f.registry
  relay : Relay.Run feed .new f.relay
  published : f.relay.published = f.registry.stream

theorem Inv.new (ids : ι → String) (feed : Feed JobStatus β) :
    Inv ids feed (new : JobFeed ι ρ β) where
  registry := .refl
  relay := .refl
  published := rfl

theorem Step.inv {feed : Feed JobStatus β} (hstep : Step ids feed f f') (h : Inv ids feed f) :
    Inv ids feed f' := by
  cases hstep with
  | @job i r hjob =>
      obtain ⟨hrun, hpub⟩ := run_publish feed (r.stream.drop f.registry.stream.length)
        f.relay
      refine ⟨h.registry.tail ⟨i, hjob⟩, h.relay.trans hrun, hpub.trans ?_⟩
      obtain ⟨more, hmore⟩ := stream_step hjob
      rw [h.published, ← hmore, List.drop_left]
      exact hmore
  | pump hpump hpub => exact ⟨h.registry, h.relay.tail hpump, hpub.trans h.published⟩

theorem Run.inv {feed : Feed JobStatus β} (hrun : Run ids feed new f) : Inv ids feed f := by
  induction hrun with
  | refl => exact .new ids feed
  | tail _ hstep ih => exact hstep.inv ih

/-- **What a receiver sees of the jobs.**  Whatever the jobs, the pump and the receivers do in
between, and whatever is lost on the way: what a receiver of `server.jobs` was given are statuses of
one job after another, in the order of their completion, with that of the job that has the slot at
the end; and of every job it was given at most `Running`, once, and then the terminal status of that
job, once, and nothing before the job has come that far. -/
theorem job_events (hids : Function.Injective ids) (hrun : Run ids (jobsFeed n payload) new f)
    (k : ρ) : ∃ heard : List JobStatus, f.relay.received k = heard.map payload ∧
      (∃ last, (last = [] ∨ ∃ i, (f.registry.phase i).Active ∧
          last = Registry.sent (ids i) (f.registry.phase i)) ∧
        heard.Sublist (f.registry.completed.flatMap (Registry.pair ids) ++ last)) ∧
      ∀ i, (heard.filter (·.id = ids i)).Sublist
        (Registry.sent (ids i) (f.registry.phase i)) := by
  have h := hrun.inv
  have hregistry := h.registry.inv hids
  have hreceived := Relay.received_sublist h.relay k
  rw [h.published] at hreceived
  obtain ⟨heard, hsub, heq⟩ := List.sublist_map_iff.mp hreceived
  refine ⟨heard, heq, ?_, fun i ↦ ?_⟩
  · cases hrunning : f.registry.inner.running with
    | none =>
        refine ⟨[], .inl rfl, ?_⟩
        rw [List.append_nil, ← hregistry.quiet hrunning]
        exact hsub
    | some id =>
        obtain ⟨i, -, hactive⟩ := hregistry.holder id hrunning
        refine ⟨_, .inr ⟨i, hactive, rfl⟩, ?_⟩
        rw [← hregistry.stream i hactive]
        exact hsub
  · rw [← filter_stream hids hregistry i]
    exact hsub.filter _

/-- A job is announced before the pump is there, and its success is forwarded. -/
theorem job_events_late : ∃ f : JobFeed Bool Unit JobStatus,
    f.relay.received () = [terminalStatus (Registry.twoIds true) (.ok ())] ∧
      ∃ heard : List JobStatus, f.relay.received () = heard.map id ∧
        (heard.filter (·.id = Registry.twoIds true)).Sublist
          [initialStatus (Registry.twoIds true),
            terminalStatus (Registry.twoIds true) (.ok ())] := by
  have hjob : Run Registry.twoIds (jobsFeed 1 id) (new : JobFeed Bool Unit JobStatus) _ :=
    ((((Relation.ReflTransGen.single (.job (.accept (i := true) rfl rfl))).tail
      (.job (.announce (i := true) rfl))).tail (.job (.spawn (i := true) rfl))).tail
      (.pump (.start rfl) rfl)).tail (.pump (.subscribe (k := ()) rfl) rfl)
  have hrun := ((((hjob.tail (.job (.finish (i := true) (.ok ()) rfl))).tail
    (.pump (.receive rfl) rfl)).tail (.pump (.send rfl (k := ()) (Option.some_ne_none _)) rfl)).tail
    (.pump (.hear (k := ()) rfl) rfl))
  obtain ⟨heard, heq, -, hall⟩ := job_events Registry.twoIds_injective hrun ()
  exact ⟨_, rfl, heard, heq, hall true⟩

end Received

end JobFeed

end Vaiexia.Events
