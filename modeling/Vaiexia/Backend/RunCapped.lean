import Vaiexia.Backend.Packages
import Vaiexia.Lib.Fairness

/-!
# Running a child with a cap and a deadline

`run_capped` of `crates/vaiexia-server/src/backend/capped.rs`, from the spawning on: it reads the
standard output of the child into at most `cap` bytes, waits for the child, and has one deadline for
both.  What the child writes, and what its descendants do with the pipe that they inherit, is up to
them.

`runCapped_sound` says that the outcomes are those of `runCapped`, which the queries are about, and
that the deadline holds: `run_capped` waits for nobody else after it, whoever has the pipe open.
-/

namespace Vaiexia.Backend

open Vaiexia.Lib

/-! ## The call -/

/-- Where `run_capped` is; a result of `none` is an `io::Error`. -/
inductive CapturePhase where
  /-- In `read_capped`. -/
  | reading (bytes : Bytes)
  /-- In the `wait` after it. -/
  | waiting (bytes : Bytes)
  /-- Before `kill`. -/
  | killing (result : Option RunOutcome)
  /-- In the `wait` after that. -/
  | reaping (result : Option RunOutcome)
  | returned (result : Option RunOutcome)
  /-- The future was dropped. -/
  | dropped

namespace CapturePhase

/-- The outcome that is certain. -/
def outcome? : CapturePhase → Option RunOutcome
  | killing result | reaping result | returned result => result
  | reading _ | waiting _ | dropped => none

/-- How many steps there are at most before the end, once the call need not wait. -/
def rank (cap : Nat) : CapturePhase → Nat
  | reading bytes => 4 + (cap - bytes.length)
  | waiting _ => 3
  | killing _ => 2
  | reaping _ => 1
  | returned _ | dropped => 0

end CapturePhase

/-- A call of `run_capped`, its child, and the pipe.  What was written is not part of the
program. -/
structure Capture where
  phase : CapturePhase
  /-- The deadline has passed. -/
  expired : Bool
  /-- Whether the child exited with success, `none` while it runs. -/
  exit : Option Bool
  /-- The child has the pipe open for writing. -/
  holds : Bool
  /-- How many other processes have. -/
  others : Nat
  pipe : Bytes
  written : Bytes

namespace Capture

/-- The child was spawned. -/
def start : Capture where
  phase := .reading []
  expired := false
  exit := none
  holds := true
  others := 0
  pipe := []
  written := []

/-- Somebody has the pipe open for writing. -/
def Open (s : Capture) : Prop := s.holds = true ∨ 0 < s.others

/-- The call is over. -/
def Over (s : Capture) : Prop := s.phase = .dropped ∨ ∃ result, s.phase = .returned result

/-- The child is killed.  No process outlives `SIGKILL`, and one that has exited is not changed by
it. -/
def kill (phase : CapturePhase) (s : Capture) : Capture :=
  { s with
    phase := phase
    exit := some (s.exit.getD false)
    holds := false }

/-- What a chunk is for `read_capped`. -/
def afterRead (cap : Nat) (bytes chunk : Bytes) : CapturePhase :=
  if cap - bytes.length < chunk.length then
    .killing (some ⟨bytes ++ chunk.take (cap - bytes.length), true, false, false⟩)
  else .reading (bytes ++ chunk)

/-- A step of the call.  A read brings at most a buffer of what is there. -/
inductive OwnStep (cap : Nat) : Capture → Capture → Prop
  | read {s : Capture} {bytes : Bytes} {n : Nat} (hphase : s.phase = .reading bytes) (hpos : 0 < n)
      (hle : n ≤ s.pipe.length) (hmax : n ≤ 8192) :
      OwnStep cap s { s with
        phase := afterRead cap bytes (s.pipe.take n)
        pipe := s.pipe.drop n }
  | eof {s : Capture} {bytes : Bytes} (hphase : s.phase = .reading bytes) (hempty : s.pipe = [])
      (hclosed : ¬ s.Open) : OwnStep cap s { s with phase := .waiting bytes }
  | readFailed {s : Capture} {bytes : Bytes} (hphase : s.phase = .reading bytes) :
      OwnStep cap s { s with phase := .killing none }
  | readLate {s : Capture} {bytes : Bytes} (hphase : s.phase = .reading bytes)
      (hlate : s.expired = true) :
      OwnStep cap s { s with phase := .killing (some ⟨[], false, true, false⟩) }
  | exited {s : Capture} {bytes : Bytes} {success : Bool} (hphase : s.phase = .waiting bytes)
      (hexit : s.exit = some success) :
      OwnStep cap s { s with phase := .returned (some ⟨bytes, false, false, success⟩) }
  /-- The child is dropped with the call, and killed by that. -/
  | waitFailed {s : Capture} {bytes : Bytes} (hphase : s.phase = .waiting bytes) :
      OwnStep cap s (s.kill (.returned none))
  | waitLate {s : Capture} {bytes : Bytes} (hphase : s.phase = .waiting bytes)
      (hlate : s.expired = true) :
      OwnStep cap s { s with phase := .killing (some ⟨bytes, false, true, false⟩) }
  | kill {s : Capture} {result : Option RunOutcome} (hphase : s.phase = .killing result) :
      OwnStep cap s (s.kill (.reaping result))
  | reap {s : Capture} {result : Option RunOutcome} (hphase : s.phase = .reaping result)
      (hexit : s.exit.isSome) : OwnStep cap s { s with phase := .returned result }

/-- Whatever else happens: what the child and its descendants do, the deadline, and that the caller
drops the future, which kills the child. -/
inductive EnvStep : Capture → Capture → Prop
  | expire {s : Capture} : EnvStep s { s with expired := true }
  | exit {s : Capture} (success : Bool) (hexit : s.exit = none) :
      EnvStep s { s with exit := some success, holds := false }
  | closeOwn {s : Capture} (hexit : s.exit = none) : EnvStep s { s with holds := false }
  | fork {s : Capture} (hopen : s.Open) : EnvStep s { s with others := s.others + 1 }
  | close {s : Capture} (hothers : 0 < s.others) : EnvStep s { s with others := s.others - 1 }
  | write {s : Capture} (bs : Bytes) (hopen : s.Open) :
      EnvStep s { s with pipe := s.pipe ++ bs, written := s.written ++ bs }
  | drop {s : Capture} (hover : ¬ s.Over) : EnvStep s (s.kill .dropped)

def Step (cap : Nat) (s s' : Capture) : Prop := OwnStep cap s s' ∨ EnvStep s s'

/-- Any interleaving. -/
abbrev Run (cap : Nat) : Capture → Capture → Prop := Relation.ReflTransGen (Step cap)

/-- All that can happen from a state on, with the call scheduled fairly. -/
structure Behaviour (cap : Nat) (s : Capture) (run : Nat → Capture) : Prop where
  zero : run 0 = s
  step : ∀ n, Step cap (run n) (run (n + 1))
  own : WeaklyFair (OwnStep cap) run

/-! ## What an outcome says -/

/-- What an outcome tells of the child. -/
inductive Shows (cap : Nat) (s : Capture) : RunOutcome → Prop
  | truncated {bytes : Bytes} (hmore : cap < s.written.length)
      (hbytes : bytes = s.written.take cap) :
      Shows cap s ⟨bytes, true, false, false⟩
  | late {bytes : Bytes} (hlate : s.expired = true) (hle : bytes.length ≤ cap) :
      Shows cap s ⟨bytes, false, true, false⟩
  | complete {bytes : Bytes} {success : Bool} (hclosed : ¬ s.Open) (hle : bytes.length ≤ cap)
      (hbytes : bytes = s.written) (hexit : s.exit = some success) :
      Shows cap s ⟨bytes, false, false, success⟩

variable {cap : Nat} {s s' : Capture}

/-! ## What later states keep -/

/-- What a step leaves as it is. -/
structure Later (s s' : Capture) : Prop where
  expired : s.expired = true → s'.expired = true
  exit : ∀ success, s.exit = some success → s'.exit = some success
  closed : ¬ s.Open → ¬ s'.Open
  written : s.written <+: s'.written
  still : ¬ s.Open → s'.written = s.written

/-- Only the phase and the pipe are changed. -/
theorem Later.of_phase (s : Capture) (phase : CapturePhase) (pipe : Bytes) :
    Later s { s with phase, pipe } :=
  ⟨id, fun _ ↦ id, id, List.prefix_rfl, fun _ ↦ rfl⟩

/-- Killing the child closes its end of the pipe. -/
theorem Later.kill (s : Capture) (phase : CapturePhase) : Later s (s.kill phase) where
  expired := id
  exit := by
    intro success hexit
    show some (s.exit.getD false) = some success
    rw [hexit, Option.getD_some]
  closed := by
    rintro hclosed (hholds | hothers)
    · cases hholds
    · exact hclosed (.inr hothers)
  written := List.prefix_rfl
  still := fun _ ↦ rfl

theorem OwnStep.later (h : OwnStep cap s s') : Later s s' := by
  cases h with
  | read | eof | readFailed | readLate | exited | waitLate | reap => exact .of_phase s _ _
  | waitFailed | kill => exact .kill s _

theorem EnvStep.later (h : EnvStep s s') : Later s s' := by
  cases h with
  | expire => exact ⟨fun _ ↦ rfl, fun _ ↦ id, id, List.prefix_rfl, fun _ ↦ rfl⟩
  | exit success hexit =>
      refine ⟨id, fun success' hexit' ↦ ?_, ?_, List.prefix_rfl, fun _ ↦ rfl⟩
      · cases hexit.symm.trans hexit'
      · rintro hclosed (hholds | hothers)
        · cases hholds
        · exact hclosed (.inr hothers)
  | closeOwn =>
      refine ⟨id, fun _ ↦ id, ?_, List.prefix_rfl, fun _ ↦ rfl⟩
      rintro hclosed (hholds | hothers)
      · cases hholds
      · exact hclosed (.inr hothers)
  | fork hopen =>
      exact ⟨id, fun _ ↦ id, absurd hopen, List.prefix_rfl, fun _ ↦ rfl⟩
  | close hothers =>
      exact ⟨id, fun _ ↦ id, absurd (.inr hothers), List.prefix_rfl, fun _ ↦ rfl⟩
  | write bs hopen => exact ⟨id, fun _ ↦ id, id, List.prefix_append _ _, absurd hopen⟩
  | drop => exact .kill s _

theorem Step.later (h : Step cap s s') : Later s s' := h.elim OwnStep.later EnvStep.later

/-- What an outcome tells stays true. -/
theorem Shows.later {out : RunOutcome} (h : s.Shows cap out) (hlater : Later s s') :
    s'.Shows cap out := by
  cases h with
  | truncated hmore hbytes =>
      obtain ⟨more, hwritten⟩ := hlater.written
      refine .truncated ?_ ?_
      · rw [← hwritten, List.length_append]
        exact Nat.lt_of_lt_of_le hmore (Nat.le_add_right _ _)
      · rw [← hwritten, List.take_append_of_le_length (Nat.le_of_lt hmore)]
        exact hbytes
  | late hlate hle => exact .late (hlater.expired hlate) hle
  | complete hclosed hle hbytes hexit =>
      exact .complete (hlater.closed hclosed) hle (hbytes.trans (hlater.still hclosed).symm)
        (hlater.exit _ hexit)

/-! ## The invariant -/

/-- A child that is over has nothing open; what was read are the first bytes that were written, at
most `cap` of them; an outcome that is certain is true; and the call does not end before the
child. -/
structure Inv (cap : Nat) (s : Capture) : Prop where
  holds : s.exit.isSome → s.holds = false
  reading : ∀ bytes, s.phase = .reading bytes → bytes.length ≤ cap ∧ s.written = bytes ++ s.pipe
  waiting : ∀ bytes, s.phase = .waiting bytes →
    bytes.length ≤ cap ∧ ¬ s.Open ∧ bytes = s.written
  outcome : ∀ out, s.phase.outcome? = some out → s.Shows cap out
  reaping : ∀ result, s.phase = .reaping result → s.exit.isSome
  ended : s.Over → s.exit.isSome

theorem Inv.start : Inv cap start where
  holds := by rintro ⟨⟩
  reading := by
    rintro bytes ⟨⟩
    exact ⟨Nat.zero_le cap, rfl⟩
  waiting := by rintro bytes ⟨⟩
  outcome := by rintro out ⟨⟩
  reaping := by rintro result ⟨⟩
  ended := by rintro (⟨⟨⟩⟩ | ⟨result, ⟨⟩⟩)

/-- A chunk is either more than there is room for, or it is kept. -/
theorem afterRead_cases {bytes : Bytes} (hle : bytes.length ≤ cap) (chunk : Bytes) :
    (cap < (bytes ++ chunk).length ∧ afterRead cap bytes chunk
      = .killing (some ⟨(bytes ++ chunk).take cap, true, false, false⟩)) ∨
    ((bytes ++ chunk).length ≤ cap ∧ afterRead cap bytes chunk = .reading (bytes ++ chunk)) := by
  unfold afterRead
  by_cases hroom : cap - bytes.length < chunk.length
  · left
    rw [if_pos hroom, List.take_append, List.take_of_length_le hle, List.length_append]
    exact ⟨by omega, rfl⟩
  · right
    rw [if_neg hroom, List.length_append]
    exact ⟨by omega, rfl⟩

/-- A read keeps the invariant. -/
theorem Inv.read (h : Inv cap s) {bytes : Bytes} {n : Nat} (hphase : s.phase = .reading bytes) :
    Inv cap { s with
      phase := afterRead cap bytes (s.pipe.take n)
      pipe := s.pipe.drop n } := by
  obtain ⟨hle, hwritten⟩ := h.reading bytes hphase
  have hsplit : s.written = (bytes ++ s.pipe.take n) ++ s.pipe.drop n := by
    rw [List.append_assoc, List.take_append_drop, hwritten]
  rcases afterRead_cases hle (s.pipe.take n) with ⟨hmore, heq⟩ | ⟨hfits, heq⟩
  · rw [heq]
    refine ⟨h.holds, by rintro _ ⟨⟩, by rintro _ ⟨⟩, ?_, by rintro _ ⟨⟩, ?_⟩
    · rintro out ⟨⟩
      refine .truncated (?_ : cap < s.written.length) (?_ : _ = s.written.take cap)
      · rw [hsplit, List.length_append]
        exact Nat.lt_of_lt_of_le hmore (Nat.le_add_right _ _)
      · rw [hsplit, List.take_append_of_le_length (Nat.le_of_lt hmore)]
    · rintro (⟨⟨⟩⟩ | ⟨_, ⟨⟩⟩)
  · rw [heq]
    refine ⟨h.holds, ?_, by rintro _ ⟨⟩, by rintro _ ⟨⟩, by rintro _ ⟨⟩, ?_⟩
    · rintro bytes' ⟨⟩
      exact ⟨hfits, hsplit⟩
    · rintro (⟨⟨⟩⟩ | ⟨_, ⟨⟩⟩)

/-- Whoever goes on to kill the child may return something that is true. -/
theorem Inv.killing (h : Inv cap s) {result : Option RunOutcome}
    (hresult : ∀ out, result = some out → s.Shows cap out) :
    Inv cap { s with phase := .killing result } where
  holds := h.holds
  reading := by rintro _ ⟨⟩
  waiting := by rintro _ ⟨⟩
  outcome := fun out hout ↦ (hresult out hout).later (.of_phase s _ s.pipe)
  reaping := by rintro _ ⟨⟩
  ended := by rintro (⟨⟨⟩⟩ | ⟨_, ⟨⟩⟩)

/-- The child is over once it is killed. -/
theorem Inv.kill (h : Inv cap s) {phase : CapturePhase} (hreading : ∀ bytes, phase ≠ .reading bytes)
    (hwaiting : ∀ bytes, phase ≠ .waiting bytes)
    (houtcome : ∀ out, phase.outcome? = some out → s.phase.outcome? = some out) :
    Inv cap (s.kill phase) where
  holds := fun _ ↦ rfl
  reading := fun bytes hphase ↦ absurd hphase (hreading bytes)
  waiting := fun bytes hphase ↦ absurd hphase (hwaiting bytes)
  outcome := fun out hout ↦ (h.outcome out (houtcome out hout)).later (.kill s phase)
  reaping := fun _ _ ↦ rfl
  ended := fun _ ↦ rfl

/-- The call returns something that is true, of a child that is over. -/
theorem Inv.returned (h : Inv cap s) {result : Option RunOutcome} (hexit : s.exit.isSome)
    (hresult : ∀ out, result = some out → s.Shows cap out) :
    Inv cap { s with phase := .returned result } where
  holds := h.holds
  reading := by rintro _ ⟨⟩
  waiting := by rintro _ ⟨⟩
  outcome := fun out hout ↦ (hresult out hout).later (.of_phase s _ s.pipe)
  reaping := by rintro _ ⟨⟩
  ended := fun _ ↦ hexit

/-- **Every step of the call keeps the invariant.** -/
theorem OwnStep.inv (hstep : OwnStep cap s s') (h : Inv cap s) : Inv cap s' := by
  cases hstep with
  | read hphase => exact h.read hphase
  | @eof bytes hphase hempty hclosed =>
      obtain ⟨hle, hwritten⟩ := h.reading bytes hphase
      rw [hempty, List.append_nil] at hwritten
      refine ⟨h.holds, by rintro _ ⟨⟩, ?_, by rintro _ ⟨⟩, by rintro _ ⟨⟩, ?_⟩
      · rintro bytes' ⟨⟩
        exact ⟨hle, hclosed, hwritten.symm⟩
      · rintro (⟨⟨⟩⟩ | ⟨_, ⟨⟩⟩)
  | readFailed => exact h.killing (by rintro _ ⟨⟩)
  | readLate _ hlate =>
      refine h.killing ?_
      rintro out ⟨⟩
      exact .late hlate (Nat.zero_le cap)
  | @exited bytes success hphase hexit =>
      obtain ⟨hle, hclosed, hbytes⟩ := h.waiting bytes hphase
      refine h.returned (Option.isSome_of_eq_some hexit) ?_
      rintro out ⟨⟩
      exact .complete hclosed hle hbytes hexit
  | waitFailed =>
      exact h.kill (by rintro _ ⟨⟩) (by rintro _ ⟨⟩) (by rintro _ ⟨⟩)
  | waitLate hphase hlate =>
      refine h.killing ?_
      rintro out ⟨⟩
      exact .late hlate (h.waiting _ hphase).1
  | kill hphase =>
      refine h.kill (by rintro _ ⟨⟩) (by rintro _ ⟨⟩) fun out hout ↦ ?_
      rw [hphase]
      exact hout
  | reap hphase hexit =>
      refine h.returned hexit fun out hout ↦ h.outcome out ?_
      rw [hphase]
      exact hout

/-- What others do leaves the phase. -/
theorem Inv.env (h : Inv cap s) (hlater : Later s s') (hphase : s'.phase = s.phase)
    (hholds : s'.exit.isSome → s'.holds = false)
    (hpipe : ∀ bytes, s.written = bytes ++ s.pipe → s'.written = bytes ++ s'.pipe) :
    Inv cap s' where
  holds := hholds
  reading := by
    intro bytes hreading
    obtain ⟨hle, hwritten⟩ := h.reading bytes (hphase.symm.trans hreading)
    exact ⟨hle, hpipe bytes hwritten⟩
  waiting := by
    intro bytes hwaiting
    obtain ⟨hle, hclosed, hbytes⟩ := h.waiting bytes (hphase.symm.trans hwaiting)
    exact ⟨hle, hlater.closed hclosed, hbytes.trans (hlater.still hclosed).symm⟩
  outcome := by
    intro out hout
    rw [hphase] at hout
    exact (h.outcome out hout).later hlater
  reaping := by
    intro result hreaping
    obtain ⟨success, hexit⟩ :=
      Option.isSome_iff_exists.mp (h.reaping result (hphase.symm.trans hreaping))
    exact Option.isSome_of_eq_some (hlater.exit success hexit)
  ended := by
    intro hover
    rw [Over, hphase] at hover
    obtain ⟨success, hexit⟩ := Option.isSome_iff_exists.mp (h.ended hover)
    exact Option.isSome_of_eq_some (hlater.exit success hexit)

theorem EnvStep.inv (hstep : EnvStep s s') (h : Inv cap s) : Inv cap s' := by
  have hlater := hstep.later
  cases hstep with
  | expire | fork | close => exact h.env hlater rfl h.holds fun _ hwritten ↦ hwritten
  | exit | closeOwn => exact h.env hlater rfl (fun _ ↦ rfl) fun _ hwritten ↦ hwritten
  | write bs hopen =>
      refine h.env hlater rfl h.holds fun bytes hwritten ↦ ?_
      show s.written ++ bs = bytes ++ (s.pipe ++ bs)
      rw [hwritten, List.append_assoc]
  | drop => exact h.kill (by rintro _ ⟨⟩) (by rintro _ ⟨⟩) (by rintro _ ⟨⟩)

theorem Step.inv (hstep : Step cap s s') (h : Inv cap s) : Inv cap s' :=
  hstep.elim (OwnStep.inv · h) (EnvStep.inv · h)

/-- **Every run keeps it.** -/
theorem Run.inv (hrun : Run cap start s) : Inv cap s := by
  induction hrun with
  | refl => exact .start
  | tail _ hstep ih => exact hstep.inv ih

/-! ## What is sure to happen -/

/-- There is nothing to wait for: the deadline has passed, or the child is over and nobody has its
output open. -/
def Ready (s : Capture) : Prop := s.expired = true ∨ s.exit.isSome ∧ ¬ s.Open

theorem Ready.later (h : s.Ready) (hlater : Later s s') : s'.Ready := by
  rcases h with hexpired | ⟨hexit, hclosed⟩
  · exact .inl (hlater.expired hexpired)
  · obtain ⟨success, hexit⟩ := Option.isSome_iff_exists.mp hexit
    exact .inr ⟨Option.isSome_of_eq_some (hlater.exit success hexit), hlater.closed hclosed⟩

/-- The call goes on when there is nothing to wait for. -/
theorem exists_ownStep (h : Inv cap s) (hready : s.Ready) (hover : ¬ s.Over) :
    ∃ t, OwnStep cap s t := by
  cases hphase : s.phase with
  | reading bytes =>
      rcases hready with hexpired | ⟨-, hclosed⟩
      · exact ⟨_, .readLate hphase hexpired⟩
      · cases hpipe : s.pipe with
        | nil => exact ⟨_, .eof hphase hpipe hclosed⟩
        | cons b bs =>
            refine ⟨_, .read hphase Nat.one_pos ?_ (by decide)⟩
            rw [hpipe, List.length_cons]
            exact Nat.le_add_left 1 _
  | waiting bytes =>
      rcases hready with hexpired | ⟨hexit, -⟩
      · exact ⟨_, .waitLate hphase hexpired⟩
      · obtain ⟨success, hexit⟩ := Option.isSome_iff_exists.mp hexit
        exact ⟨_, .exited hphase hexit⟩
  | killing result => exact ⟨_, .kill hphase⟩
  | reaping result => exact ⟨_, .reap hphase (h.reaping result hphase)⟩
  | returned result => exact absurd (.inr ⟨result, hphase⟩) hover
  | dropped => exact absurd (.inl hphase) hover

/-- Every step of the call brings it nearer to its end. -/
theorem OwnStep.rank_lt (hstep : OwnStep cap s s') (h : Inv cap s) :
    s'.phase.rank cap < s.phase.rank cap := by
  cases hstep with
  | @read bytes n hphase hpos hle =>
      obtain ⟨hroom, -⟩ := h.reading bytes hphase
      rw [hphase]
      show (afterRead cap bytes (s.pipe.take n)).rank cap < _
      rcases afterRead_cases hroom (s.pipe.take n) with ⟨-, heq⟩ | ⟨hfits, heq⟩
      · rw [heq]
        dsimp only [CapturePhase.rank]
        omega
      · rw [heq]
        simp only [CapturePhase.rank, List.length_append, List.length_take] at hfits ⊢
        omega
  | eof hphase | readFailed hphase | readLate hphase | exited hphase | waitFailed hphase
  | waitLate hphase | kill hphase | reap hphase =>
      rw [hphase]
      dsimp only [CapturePhase.rank, Capture.kill]
      omega

/-- Nobody else keeps the call from its end. -/
theorem EnvStep.over_or_phase_eq (hstep : EnvStep s s') : s'.Over ∨ s'.phase = s.phase := by
  cases hstep with
  | drop => exact .inl (.inl rfl)
  | expire | exit | closeOwn | fork | close | write => exact .inr rfl

/-- **The call ends** once there is nothing to wait for. -/
theorem Behaviour.ends {run : Nat → Capture} (hrun : Behaviour cap s run) (h : Inv cap s) {n : Nat}
    (hready : (run n).Ready) : ∃ m, n ≤ m ∧ (run m).Over := by
  have hinv : ∀ n, Inv cap (run n) := by
    intro n
    induction n with
    | zero => exact hrun.zero ▸ h
    | succ n ih => exact (hrun.step n).inv ih
  let waitless := fun s : Capture ↦ Inv cap s ∧ s.Ready
  have hkeep : ∀ n, waitless (run n) → ¬ (run n).Over → waitless (run (n + 1)) ∧
      ((run (n + 1)).Over ∨ (run (n + 1)).phase.rank cap ≤ (run n).phase.rank cap) := by
    rintro m ⟨hinvm, hreadym⟩ -
    refine ⟨⟨hinv (m + 1), hreadym.later (hrun.step m).later⟩, ?_⟩
    rcases hrun.step m with hstep | hstep
    · exact .inr (Nat.le_of_lt (hstep.rank_lt hinvm))
    · refine hstep.over_or_phase_eq.imp id fun heq ↦ ?_
      rw [heq]
  exact hrun.own.eventually hkeep (fun s hs hover ↦ exists_ownStep hs.1 hs.2 hover)
    (fun s t hs _ hstep ↦ .inr (hstep.rank_lt hs.1)) (show waitless (run n) from ⟨hinv n, hready⟩)

/-! ## The outcomes -/

/-- A child that is done before the deadline. -/
theorem runCapped_of_inTime (cap : Nat) (output : Bytes) (success : Bool) :
    runCapped cap ⟨output, true, success⟩ =
      if cap < output.length then ⟨output.take cap, true, false, false⟩
      else ⟨output, false, false, success⟩ := rfl

/-- An outcome is that of a child which has written what was seen of it. -/
theorem Shows.exists_childRun {out : RunOutcome} (h : s.Shows cap out) :
    ∃ child : ChildRun, child.output <+: s.written ∧
      (runCapped cap child).timedOut = out.timedOut ∧
      (out.timedOut = false → runCapped cap child = out) := by
  cases h with
  | truncated hmore hbytes =>
      refine ⟨⟨s.written, true, false⟩, List.prefix_rfl, ?_, fun _ ↦ ?_⟩
      · rw [runCapped_of_inTime, if_pos hmore]
      · rw [runCapped_of_inTime, if_pos hmore, hbytes]
  | late => exact ⟨⟨[], false, false⟩, List.nil_prefix, rfl, fun hfalse ↦ by cases hfalse⟩
  | @complete bytes success hclosed hle hbytes hexit =>
      subst hbytes
      have hfits := Nat.not_lt.mpr hle
      refine ⟨⟨s.written, true, success⟩, List.prefix_rfl, ?_, fun _ ↦ ?_⟩
      · rw [runCapped_of_inTime, if_neg hfits]
      · rw [runCapped_of_inTime, if_neg hfits]

/-- **`run_capped` with any child.**  Whatever the child and those that inherit its output do: an
outcome is true of what was written, and is that of `runCapped` for a child that wrote some first
part of it; when the call is over, by its result or because it was dropped, the child is over too;
and once the deadline has passed, or the child is over and nobody has its output open, the call
comes to its end, for which it then waits for nobody. -/
theorem runCapped_sound (hrun : Run cap start s) :
    (∀ out, s.phase = .returned (some out) → s.Shows cap out ∧
      ∃ child : ChildRun, child.output <+: s.written ∧
        (runCapped cap child).timedOut = out.timedOut ∧
        (out.timedOut = false → runCapped cap child = out)) ∧
      (s.Over → s.exit.isSome) ∧
      ∀ run, Behaviour cap s run → (∃ n, (run n).Ready) → ∃ m, (run m).Over := by
  have h := Run.inv hrun
  refine ⟨fun out hphase ↦ ?_, h.ended, fun run hbehaviour ⟨n, hready⟩ ↦ ?_⟩
  · have hshows : s.Shows cap out := h.outcome out (by rw [hphase]; rfl)
    exact ⟨hshows, hshows.exists_childRun⟩
  · obtain ⟨m, -, hover⟩ := hbehaviour.ends h hready
    exact ⟨m, hover⟩

/-- A child that has exited with success has left its output to another process, and the deadline
comes. -/
theorem runCapped_sound_inherited :
    ∃ s : Capture, s.others = 1 ∧ s.exit = some true ∧
      s.phase = .returned (some ⟨[], false, true, false⟩) ∧
      ∃ child : ChildRun, child.output <+: [111, 107] ∧ (runCapped 4 child).timedOut = true := by
  obtain ⟨s, hrun, hothers, hexit, hphase, hwritten⟩ : ∃ s, Run 4 start s ∧ s.others = 1 ∧
      s.exit = some true ∧ s.phase = .returned (some ⟨[], false, true, false⟩) ∧
      s.written = [111, 107] := by
    have hwritten : Run 4 start _ :=
      ((Relation.ReflTransGen.single (.inr (.write [111, 107] (.inl rfl)))).tail
        (.inr (.fork (.inl rfl)))).tail (.inr (.exit true rfl))
    have hlate := (hwritten.tail (.inl (.read rfl Nat.two_pos (Nat.le_refl 2) (by decide)))).tail
      (.inr .expire)
    have hkilled := (hlate.tail (.inl (.readLate rfl rfl))).tail (.inl (.kill rfl))
    exact ⟨_, hkilled.tail (.inl (.reap rfl rfl)), rfl, rfl, rfl, rfl⟩
  obtain ⟨-, child, hprefix, htimed, -⟩ := (runCapped_sound hrun).1 _ hphase
  rw [hwritten] at hprefix
  exact ⟨s, hothers, hexit, hphase, child, hprefix, htimed⟩

end Capture

end Vaiexia.Backend
