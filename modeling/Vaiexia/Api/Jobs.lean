import Mathlib.Logic.Function.Basic
import Mathlib.Logic.Relation
import Vaiexia.Auth.Verifier
import Vaiexia.Lib.Recent

/-!
# The job registry

`crates/vaiexia-server/src/api/jobs.rs`: one slot for a running job, and the last 64 completed ones.
`Registry` has the locked state together with everything that was sent to the broadcast channel,
and every call of `try_start` with the task that it spawns is in a `JobPhase`.  The two take turns
in any way: the steps are the critical sections, the sends and the spawning.

The identifier that a call draws is given by `ids`.  A job future completes with `Ok` or `Err`, and
when it does so is open.
-/

namespace Vaiexia.Api

open Vaiexia.Lib Vaiexia.Auth

/-- `RECENT_JOBS_CAPACITY`. -/
def recentJobsCapacity : Nat := 64

/-- `JobState`. -/
inductive JobState where
  | running
  | succeeded
  | failed (diagnostic : Diagnostic)

/-- `JobStatus`. -/
structure JobStatus where
  id : String
  state : JobState
  progress : Option Float32
  logTail : List String

/-- `RegistryInner`. -/
structure RegistryInner where
  running : Option String
  recent : HashMap String JobStatus
  recentOrder : List String

namespace RegistryInner

/-- `RegistryInner::new`. -/
def new : RegistryInner where
  running := none
  recent := ∅
  recentOrder := []

/-- `RegistryInner::store_terminal`. -/
def storeTerminal (status : JobStatus) (inner : RegistryInner) : RegistryInner :=
  let (recent, recentOrder) :=
    if recentJobsCapacity ≤ inner.recentOrder.length then
      match inner.recentOrder with
      | [] => (inner.recent, inner.recentOrder)
      | evicted :: rest => (inner.recent.erase evicted, rest)
    else (inner.recent, inner.recentOrder)
  { recentOrder := recentOrder ++ [status.id]
    recent := recent.insert status.id status
    running := none }

/-- `JobRegistry::status`. -/
def status (id : String) (inner : RegistryInner) : Option JobStatus :=
  match inner.recent.lookup id with
  | some s => some s
  | none => if inner.running = some id then some ⟨id, .running, none, []⟩ else none

end RegistryInner

/-- The status that is broadcast when a job starts. -/
def initialStatus (id : String) : JobStatus where
  id := id
  state := .running
  progress := none
  logTail := []

/-- The status of a job that is done. -/
def terminalStatus (id : String) (result : Except Diagnostic Unit) : JobStatus where
  id := id
  state :=
    match result with
    | .ok () => .succeeded
    | .error diagnostic => .failed diagnostic
  progress := none
  logTail := []

/-- How far a call of `try_start` and the task that it spawns have come. -/
inductive JobPhase where
  | idle
  /-- It returned `Busy`. -/
  | busy
  | accepted
  | announced
  | spawned
  /-- The terminal status was sent. -/
  | finished (result : Except Diagnostic Unit)
  /-- And it was stored. -/
  | stored (result : Except Diagnostic Unit)

/-- The job was accepted, and its terminal status is not stored yet. -/
def JobPhase.Active : JobPhase → Prop
  | .accepted | .announced | .spawned | .finished _ => True
  | _ => False

/-- The registry, what was broadcast, and the calls; and the jobs that are stored, the oldest first,
which is not part of the program. -/
structure Registry (ι : Type) where
  inner : RegistryInner
  stream : List JobStatus
  phase : ι → JobPhase
  completed : List (ι × Except Diagnostic Unit)

namespace Registry

variable {ι : Type} [DecidableEq ι]

/-- `JobRegistry::new`. -/
def new : Registry ι where
  inner := .new
  stream := []
  phase := fun _ ↦ .idle
  completed := []

/-- A call enters a phase. -/
def set (i : ι) (p : JobPhase) (r : Registry ι) : Registry ι :=
  { r with phase := Function.update r.phase i p }

@[simp] theorem set_phase_self (i : ι) (p : JobPhase) (r : Registry ι) :
    (r.set i p).phase i = p := by simp [set]

theorem set_phase_of_ne {i j : ι} (h : j ≠ i) (p : JobPhase) (r : Registry ι) :
    (r.set i p).phase j = r.phase j := by simp [set, h]

/-- One step of a call of `try_start`, or of its task. -/
inductive Step (ids : ι → String) (i : ι) : Registry ι → Registry ι → Prop
  | refuse {r : Registry ι} (hi : r.phase i = .idle) (hbusy : r.inner.running ≠ none) :
      Step ids i r (r.set i .busy)
  | accept {r : Registry ι} (hi : r.phase i = .idle) (hfree : r.inner.running = none) :
      Step ids i r { r.set i .accepted with inner := { r.inner with running := some (ids i) } }
  | announce {r : Registry ι} (hi : r.phase i = .accepted) :
      Step ids i r { r.set i .announced with stream := r.stream ++ [initialStatus (ids i)] }
  | spawn {r : Registry ι} (hi : r.phase i = .announced) : Step ids i r (r.set i .spawned)
  | finish {r : Registry ι} (result : Except Diagnostic Unit) (hi : r.phase i = .spawned) :
      Step ids i r { r.set i (.finished result) with
        stream := r.stream ++ [terminalStatus (ids i) result] }
  | store {r : Registry ι} {result : Except Diagnostic Unit} (hi : r.phase i = .finished result) :
      Step ids i r { r.set i (.stored result) with
        inner := r.inner.storeTerminal (terminalStatus (ids i) result)
        completed := r.completed ++ [(i, result)] }

/-- Only the steps of a call change its phase. -/
theorem Step.phase_of_ne {ids : ι → String} {r r' : Registry ι} {i j : ι} (hstep : Step ids i r r')
    (hne : j ≠ i) : r'.phase j = r.phase j := by
  cases hstep <;> exact set_phase_of_ne hne _ _

/-- Any interleaving of calls and tasks. -/
abbrev Run (ids : ι → String) : Registry ι → Registry ι → Prop :=
  Relation.ReflTransGen fun r r' ↦ ∃ i, Step ids i r r'

/-! ## The invariant -/

/-- What was broadcast of a job. -/
def sent (id : String) : JobPhase → List JobStatus
  | .announced | .spawned => [initialStatus id]
  | .finished result | .stored result => [initialStatus id, terminalStatus id result]
  | _ => []

/-- What is broadcast of a job that is done. -/
def pair (ids : ι → String) (job : ι × Except Diagnostic Unit) : List JobStatus :=
  [initialStatus (ids job.1), terminalStatus (ids job.1) job.2]

/-- The completed jobs as entries of a map. -/
def entries (ids : ι → String) (completed : List (ι × Except Diagnostic Unit)) :
    List (String × JobStatus) :=
  completed.map fun job ↦ (ids job.1, terminalStatus (ids job.1) job.2)

/-- The recent jobs. -/
def recentJobs (inner : RegistryInner) : Recent String JobStatus where
  order := inner.recentOrder
  map := inner.recent

omit [DecidableEq ι] in
/-- Storing a status makes it the most recent one. -/
theorem recentJobs_storeTerminal (status : JobStatus) (inner : RegistryInner) :
    recentJobs (inner.storeTerminal status)
      = (recentJobs inner).push recentJobsCapacity status.id status := by
  obtain ⟨running, recent, order⟩ := inner
  unfold recentJobs RegistryInner.storeTerminal Recent.push Recent.evict
  by_cases hfull : recentJobsCapacity ≤ order.length
  · rcases order with _ | ⟨evicted, rest⟩
    · rfl
    · have hfull' : recentJobsCapacity ≤ rest.length + 1 := hfull
      simp [hfull']
  · simp [hfull]

/-- The invariant of the registry. -/
structure Inv (ids : ι → String) (r : Registry ι) : Prop where
  recent : (recentJobs r.inner).Holds recentJobsCapacity (entries ids r.completed)
  slot : ∀ i, (r.phase i).Active → r.inner.running = some (ids i)
  holder : ∀ id, r.inner.running = some id → ∃ i, ids i = id ∧ (r.phase i).Active
  completed : ∀ i result, (i, result) ∈ r.completed ↔ r.phase i = .stored result
  quiet : r.inner.running = none → r.stream = r.completed.flatMap (pair ids)
  stream : ∀ i, (r.phase i).Active →
    r.stream = r.completed.flatMap (pair ids) ++ sent (ids i) (r.phase i)

section Invariant

variable {ids : ι → String} {r r' : Registry ι} {i j : ι}

omit [DecidableEq ι] in
theorem Inv.new (ids : ι → String) : Inv ids new where
  recent := .start _
  slot := fun _ h ↦ h.elim
  holder := nofun
  completed := by simp [Registry.new]
  quiet := fun _ ↦ rfl
  stream := fun _ h ↦ h.elim

omit [DecidableEq ι] in
/-- **One job at a time.** -/
theorem Inv.active_unique (hids : Function.Injective ids) (h : Inv ids r)
    (hi : (r.phase i).Active) (hj : (r.phase j).Active) : i = j :=
  hids (Option.some.inj ((h.slot i hi).symm.trans (h.slot j hj)))

/-- A step that neither takes nor frees the slot and stores nothing: a call of which nothing is
stored enters another phase, and may send. -/
theorem Inv.move (hids : Function.Injective ids) (h : Inv ids r) {p : JobPhase}
    (hactive : p.Active ↔ (r.phase i).Active) (hstored : ∀ result, p ≠ .stored result)
    (hstored' : ∀ result, r.phase i ≠ .stored result) {more : List JobStatus}
    (hmore : p.Active → sent (ids i) p = sent (ids i) (r.phase i) ++ more)
    (hquiet : ¬ p.Active → more = []) :
    Inv ids { r.set i p with stream := r.stream ++ more } where
  recent := h.recent
  slot := by
    intro j hj
    rcases eq_or_ne j i with rfl | hne
    · dsimp only at hj
      rw [set_phase_self] at hj
      exact h.slot j (hactive.mp hj)
    · dsimp only at hj
      rw [set_phase_of_ne hne] at hj
      exact h.slot j hj
  holder := by
    intro id hid
    obtain ⟨j, hj, hjactive⟩ := h.holder id hid
    refine ⟨j, hj, ?_⟩
    rcases eq_or_ne j i with rfl | hne
    · rw [set_phase_self]
      exact hactive.mpr hjactive
    · rw [set_phase_of_ne hne]
      exact hjactive
  completed := by
    intro j result
    rcases eq_or_ne j i with rfl | hne
    · rw [set_phase_self]
      exact ⟨fun hmem ↦ absurd ((h.completed j result).mp hmem) (hstored' result),
        fun heq ↦ absurd heq (hstored result)⟩
    · rw [set_phase_of_ne hne]
      exact h.completed j result
  quiet := by
    intro hfree
    have hnot : ¬ p.Active := by
      intro hp
      have hslot := h.slot i (hactive.mp hp)
      rw [show r.inner.running = none from hfree] at hslot
      cases hslot
    dsimp only
    rw [hquiet hnot, List.append_nil]
    exact h.quiet hfree
  stream := by
    intro j hj
    dsimp only at hj ⊢
    rcases eq_or_ne j i with rfl | hne
    · rw [set_phase_self] at hj ⊢
      rw [hmore hj, h.stream j (hactive.mp hj), List.append_assoc]
      rfl
    · rw [set_phase_of_ne hne] at hj ⊢
      have hnot : ¬ p.Active := fun hp ↦ hne (h.active_unique hids hj (hactive.mp hp))
      rw [hquiet hnot, List.append_nil]
      exact h.stream j hj

/-- The next job takes the free slot. -/
theorem Inv.accept (h : Inv ids r) (hi : r.phase i = .idle) (hfree : r.inner.running = none) :
    Inv ids { r.set i .accepted with inner := { r.inner with running := some (ids i) } } where
  recent := h.recent
  slot := by
    intro j hj
    rcases eq_or_ne j i with rfl | hne
    · rfl
    · dsimp only at hj
      rw [set_phase_of_ne hne] at hj
      have hslot := h.slot j hj
      rw [hfree] at hslot
      cases hslot
  holder := by
    intro id hid
    exact ⟨i, Option.some.inj hid, by dsimp only; rw [set_phase_self]; trivial⟩
  completed := by
    intro j result
    rcases eq_or_ne j i with rfl | hne
    · rw [set_phase_self]
      refine ⟨fun hmem ↦ ?_, nofun⟩
      have hstored := (h.completed j result).mp hmem
      rw [hi] at hstored
      cases hstored
    · rw [set_phase_of_ne hne]
      exact h.completed j result
  quiet := nofun
  stream := by
    intro j hj
    dsimp only at hj ⊢
    rcases eq_or_ne j i with rfl | hne
    · rw [set_phase_self]
      exact (h.quiet hfree).trans (List.append_nil _).symm
    · rw [set_phase_of_ne hne] at hj
      have hslot := h.slot j hj
      rw [hfree] at hslot
      cases hslot

omit [DecidableEq ι] in
/-- A job that is not stored is not among the entries. -/
theorem Inv.not_mem_entries (hids : Function.Injective ids) (h : Inv ids r)
    (hi : ∀ result, r.phase i ≠ .stored result) :
    ids i ∉ (entries ids r.completed).map Prod.fst := by
  intro hmem
  obtain ⟨e, he, hfst⟩ := List.mem_map.mp hmem
  obtain ⟨⟨j, result⟩, hjob, rfl⟩ := List.mem_map.mp he
  obtain rfl : j = i := hids hfst
  exact hi result ((h.completed j result).mp hjob)

/-- A job that is done is stored and frees the slot. -/
theorem Inv.store (hids : Function.Injective ids) (h : Inv ids r)
    {result : Except Diagnostic Unit} (hi : r.phase i = .finished result) :
    Inv ids { r.set i (.stored result) with
      inner := r.inner.storeTerminal (terminalStatus (ids i) result)
      completed := r.completed ++ [(i, result)] } where
  recent := by
    rw [recentJobs_storeTerminal, entries, List.map_append]
    exact h.recent.push (h.not_mem_entries hids (by rw [hi]; nofun)) _
  slot := by
    intro j hj
    dsimp only at hj
    rcases eq_or_ne j i with rfl | hne
    · rw [set_phase_self] at hj
      exact hj.elim
    · rw [set_phase_of_ne hne] at hj
      exact absurd (h.active_unique hids hj (by rw [hi]; trivial)) hne
  holder := nofun
  completed := by
    intro j result'
    dsimp only
    rw [List.mem_append, List.mem_singleton]
    rcases eq_or_ne j i with rfl | hne
    · rw [set_phase_self, h.completed, hi]
      simp [eq_comm]
    · rw [set_phase_of_ne hne, h.completed]
      simp [hne]
  quiet := by
    intro _
    dsimp only
    rw [List.flatMap_append, List.flatMap_singleton]
    have hstream := h.stream i (by rw [hi]; trivial)
    rw [hi] at hstream
    exact hstream
  stream := by
    intro j hj
    dsimp only at hj
    rcases eq_or_ne j i with rfl | hne
    · rw [set_phase_self] at hj
      exact hj.elim
    · rw [set_phase_of_ne hne] at hj
      exact absurd (h.active_unique hids hj (by rw [hi]; trivial)) hne

/-- **A step keeps the invariant.** -/
theorem Step.inv (hids : Function.Injective ids) (hstep : Step ids i r r') (h : Inv ids r) :
    Inv ids r' := by
  cases hstep with
  | refuse hi hbusy =>
      have hmove := h.move hids (i := i) (p := .busy) (by simp [hi, JobPhase.Active]) nofun
        (by simp [hi]) (fun h ↦ h.elim) (fun _ ↦ rfl)
      rw [List.append_nil] at hmove
      exact hmove
  | accept hi hfree => exact h.accept hi hfree
  | announce hi =>
      exact h.move hids (i := i) (p := .announced) (by simp [hi, JobPhase.Active]) nofun
        (by simp [hi])
        (by simp [hi, sent]) (fun h ↦ absurd trivial h)
  | spawn hi =>
      have hmove := h.move hids (i := i) (p := .spawned) (by simp [hi, JobPhase.Active]) nofun
        (by simp [hi]) (by simp [hi, sent]) (fun _ ↦ rfl)
      rw [List.append_nil] at hmove
      exact hmove
  | finish result hi =>
      exact h.move hids (i := i) (p := .finished result) (by simp [hi, JobPhase.Active]) nofun
        (by simp [hi])
        (by simp [hi, sent]) (fun h ↦ absurd trivial h)
  | store hi => exact h.store hids hi

/-- **Every run keeps it.** -/
theorem Run.inv (hids : Function.Injective ids) (hrun : Run ids new r) : Inv ids r := by
  induction hrun with
  | refl => exact .new ids
  | tail _ hmove ih =>
      obtain ⟨i, hstep⟩ := hmove
      exact hstep.inv hids ih

/-- What is completed stays completed, in the same order. -/
theorem Run.completed_prefix (hrun : Run ids r r') : r.completed <+: r'.completed := by
  induction hrun with
  | refl => exact List.prefix_refl _
  | tail _ hmove ih =>
      obtain ⟨i, hstep⟩ := hmove
      refine ih.trans ?_
      cases hstep with
      | store hi => exact List.prefix_append _ _
      | refuse | accept | announce | spawn | finish => exact List.prefix_refl _

end Invariant

/-! ## What callers and subscribers see -/

section Observed

variable {ids : ι → String} {r r' : Registry ι} {i : ι}

omit [DecidableEq ι] in
/-- A job that has the slot is running, for whoever asks. -/
theorem Inv.status_active (hids : Function.Injective ids) (h : Inv ids r)
    (hi : (r.phase i).Active) : r.inner.status (ids i) = some (initialStatus (ids i)) := by
  have hnone : r.inner.recent.lookup (ids i) = none := by
    rw [Option.eq_none_iff_forall_ne_some]
    intro status hstatus
    have hmem := (Recent.rtake_suffix _ _).subset ((h.recent.lookup _ _).mp hstatus)
    refine h.not_mem_entries hids (i := i) ?_ (List.mem_map.mpr ⟨_, hmem, rfl⟩)
    intro result hresult
    rw [hresult] at hi
    exact hi
  rw [RegistryInner.status, hnone]
  exact if_pos (h.slot i hi)

omit [DecidableEq ι] in
/-- A job that is stored has its terminal status until 64 more are. -/
theorem Inv.status_completed (hids : Function.Injective ids) (h : Inv ids r)
    {result : Except Diagnostic Unit} {before later : List (ι × Except Diagnostic Unit)}
    (hsplit : r.completed = before ++ (i, result) :: later) :
    r.inner.status (ids i)
      = if later.length < 64 then some (terminalStatus (ids i) result) else none := by
  have hentries : entries ids r.completed
      = entries ids before ++ (ids i, terminalStatus (ids i) result) :: entries ids later := by
    rw [hsplit, entries, List.map_append, List.map_cons]
    rfl
  have hlookup := h.recent.lookup_of_split hentries
  rw [entries, List.length_map] at hlookup
  have hidle : r.inner.running ≠ some (ids i) := by
    intro hrunning
    obtain ⟨j, hj, hactive⟩ := h.holder _ hrunning
    obtain rfl := hids hj
    have hstored : r.phase j = .stored result := (h.completed j result).mp (by simp [hsplit])
    rw [hstored] at hactive
    exact hactive
  change r.inner.recent.lookup (ids i) = _ at hlookup
  rw [RegistryInner.status, hlookup]
  by_cases hlater : later.length < recentJobsCapacity
  · rw [if_pos hlater]
    exact (if_pos hlater).symm
  · rw [if_neg hlater]
    exact (if_neg hidle).trans (if_neg hlater).symm

/-- The identifiers of two calls. -/
def twoIds (first : Bool) : String :=
  if first then "16fd2706-8baf-433b-82eb-8c7fada847da"
  else "6f9619ff-8b86-4d01-b42d-00cf4fc964ff"

theorem twoIds_injective : Function.Injective twoIds := by
  unfold Function.Injective
  decide

end Observed

end Registry

end Vaiexia.Api
