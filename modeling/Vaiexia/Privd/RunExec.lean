import Mathlib.Logic.Relation
import Vaiexia.Lib.Fairness
import Vaiexia.Privd.Protocol

/-!
# Running a package manager

`run_exec` of `crates/vaiexia-privd/src/socket.rs`, after the argument vector: the process is
spawned with a pipe for its standard error, a helper thread drains the pipe until its end, and the
main thread polls the process until the deadline, kills it then, and joins the helper thread.

A pipe ends when nobody has it open for writing.  The processes that have are the child and its
descendants, so `Exec` counts them; when a process forks and what a process writes is up to it.

`returns_iff` says when `run_exec` is sure to return once the child is over, and that the deadline
ends the child.
-/

namespace Vaiexia.Privd

open Vaiexia.Lib Utf8

/-! ## Responses -/

/-- `EXEC_TIMEOUT`, in milliseconds. -/
def execTimeout : Nat := 300000

/-- `MAX_STDERR_CAPTURE`. -/
def maxStderrCapture : Nat := 64 * 1024

/-- `clip`. -/
def clip (s : List Char) (max : Nat) : List Char :=
  if byteLen s ≤ max then s else takeBytes max s ++ "... (truncated)".toList

/-- What `waitpid` tells of a process that is over. -/
inductive ExitStatus where
  | code (n : UInt8)
  | signal (n : UInt8) (core : Bool)
deriving DecidableEq

/-- `signal_string`. -/
def signalString : Nat → String
  | 1 => " (SIGHUP)"
  | 2 => " (SIGINT)"
  | 3 => " (SIGQUIT)"
  | 4 => " (SIGILL)"
  | 5 => " (SIGTRAP)"
  | 6 => " (SIGABRT)"
  | 7 => " (SIGBUS)"
  | 8 => " (SIGFPE)"
  | 9 => " (SIGKILL)"
  | 10 => " (SIGUSR1)"
  | 11 => " (SIGSEGV)"
  | 12 => " (SIGUSR2)"
  | 13 => " (SIGPIPE)"
  | 14 => " (SIGALRM)"
  | 15 => " (SIGTERM)"
  | 16 => " (SIGSTKFLT)"
  | 17 => " (SIGCHLD)"
  | 18 => " (SIGCONT)"
  | 19 => " (SIGSTOP)"
  | 20 => " (SIGTSTP)"
  | 21 => " (SIGTTIN)"
  | 22 => " (SIGTTOU)"
  | 23 => " (SIGURG)"
  | 24 => " (SIGXCPU)"
  | 25 => " (SIGXFSZ)"
  | 26 => " (SIGVTALRM)"
  | 27 => " (SIGPROF)"
  | 28 => " (SIGWINCH)"
  | 29 => " (SIGIO)"
  | 30 => " (SIGPWR)"
  | 31 => " (SIGSYS)"
  | _ => ""

/-- `ExitStatus::success`. -/
def ExitStatus.success : ExitStatus → Bool
  | code n => n == 0
  | signal _ _ => false

/-- The `Display` of `ExitStatus`. -/
def ExitStatus.display : ExitStatus → List Char
  | code n => "exit status: ".toList ++ Nat.toDigits 10 n.toNat
  | signal n core =>
      "signal: ".toList ++ Nat.toDigits 10 n.toNat ++ (signalString n.toNat).toList ++
        (if core then " (core dumped)" else "").toList

/-- An `io::Error` of the operating system: its number, and its text as `strerror_r` writes it into
a buffer of 128 bytes. -/
structure OsError where
  code : Nat
  code_lt : code < 2 ^ 31
  detail : Bytes
  detail_lt : detail.length < 128

/-- The `Display` of `io::Error`. -/
def OsError.display (e : OsError) : List Char :=
  decodeLossy e.detail ++ " (os error ".toList ++ Nat.toDigits 10 e.code ++ ")".toList

/-- How the loop of `run_exec` ends. -/
inductive ExecOutcome where
  | exited (status : ExitStatus)
  | timedOut
  | waitFailed (e : OsError)

/-- What `run_exec` answers when it has joined the helper thread, which kept so much. -/
def ExecOutcome.response (kept : Bytes) : ExecOutcome → PrivResponse
  | exited status =>
      if status.success then .ok
      else .error (String.ofList ("exit ".toList ++ status.display ++ ": ".toList ++
        clip (Text.trim (decodeLossy kept)) 512))
  | timedOut => .error "operation timed out"
  | waitFailed e => .error (String.ofList ("wait: ".toList ++ e.display))

/-! ## Processes and threads -/

/-- The helper thread. -/
inductive ReaderPhase where
  | reading (kept : Bytes)
  | done (kept : Bytes)

/-- The main thread in `run_exec`. -/
inductive MainPhase where
  /-- Before `try_wait`. -/
  | polling
  /-- After it said that the child runs. -/
  | checking
  /-- Before `kill` and `wait`. -/
  | killing (outcome : ExecOutcome)
  /-- Before the `join` of the helper thread. -/
  | joining (outcome : ExecOutcome)
  | returned (resp : PrivResponse)

/-- How many steps the main thread has before it returns, once the child is over. -/
def MainPhase.rank : MainPhase → Nat
  | .checking => 4
  | .polling => 3
  | .killing _ => 2
  | .joining _ => 1
  | .returned _ => 0

/-- A call of `run_exec`, and the processes it has to do with. -/
structure Exec where
  /-- Milliseconds since the deadline was set. -/
  now : Nat
  /-- The status of the child, `none` while it runs. -/
  child : Option ExitStatus
  /-- The child has the pipe open for writing. -/
  holds : Bool
  /-- How many other processes have. -/
  others : Nat
  /-- What was written into the pipe and not read yet. -/
  pipe : Bytes
  reader : ReaderPhase
  main : MainPhase

namespace Exec

/-- The call before the first poll, or when there is no process: `spawn` fails, or there is nothing
to spawn. -/
def start (argv : List String) (spawn : Option OsError) : Exec where
  now := 0
  child := none
  holds := !argv.isEmpty && spawn.isNone
  others := 0
  pipe := []
  reader := .reading []
  main :=
    if argv.isEmpty then .returned (.error "empty argv")
    else
      match spawn with
      | some e => .returned (.error (String.ofList ("io: ".toList ++ e.display)))
      | none => .polling

/-- What the helper thread keeps when it reads a chunk. -/
def keep (kept chunk : Bytes) : Bytes :=
  if kept.length < maxStderrCapture then kept ++ chunk.take (maxStderrCapture - kept.length)
  else kept

/-- Somebody has the pipe open for writing. -/
def Open (s : Exec) : Prop := s.holds = true ∨ 0 < s.others

/-- A step of the main thread. -/
inductive MainStep : Exec → Exec → Prop
  | pollExited {s : Exec} {status : ExitStatus} (hmain : s.main = .polling)
      (hchild : s.child = some status) : MainStep s { s with main := .joining (.exited status) }
  | pollRunning {s : Exec} (hmain : s.main = .polling) (hchild : s.child = none) :
      MainStep s { s with main := .checking }
  | pollFailed {s : Exec} (e : OsError) (hmain : s.main = .polling) :
      MainStep s { s with main := .killing (.waitFailed e) }
  | timeout {s : Exec} (hmain : s.main = .checking) (hlate : execTimeout ≤ s.now) :
      MainStep s { s with main := .killing .timedOut }
  | sleep {s : Exec} {elapsed : Nat} (hmain : s.main = .checking) (hearly : s.now < execTimeout)
      (helapsed : 50 ≤ elapsed) :
      MainStep s { s with now := s.now + elapsed, main := .polling }
  /-- No process outlives `SIGKILL`. -/
  | kill {s : Exec} {outcome : ExecOutcome} (hmain : s.main = .killing outcome) :
      MainStep s { s with
        child := some (s.child.getD (.signal 9 false)), holds := false, main := .joining outcome }
  | join {s : Exec} {outcome : ExecOutcome} {kept : Bytes} (hmain : s.main = .joining outcome)
      (hreader : s.reader = .done kept) :
      MainStep s { s with main := .returned (outcome.response kept) }

/-- A step of the helper thread: what is there to read, at most 8192 bytes of it, or the end of the
pipe. -/
inductive ReaderStep : Exec → Exec → Prop
  | chunk {s : Exec} {kept : Bytes} {n : Nat} (hreader : s.reader = .reading kept)
      (hpos : 0 < n) (hle : n ≤ s.pipe.length) (hmax : n ≤ 8192) :
      ReaderStep s { s with
        pipe := s.pipe.drop n, reader := .reading (keep kept (s.pipe.take n)) }
  | eof {s : Exec} {kept : Bytes} (hreader : s.reader = .reading kept) (hempty : s.pipe = [])
      (hclosed : ¬ s.Open) : ReaderStep s { s with reader := .done kept }

/-- Whatever else happens: what the child and its descendants do, that time passes, and that reading
fails. -/
inductive EnvStep : Exec → Exec → Prop
  | tick {s : Exec} (elapsed : Nat) : EnvStep s { s with now := s.now + elapsed }
  | exit {s : Exec} (status : ExitStatus) (hchild : s.child = none) :
      EnvStep s { s with child := some status, holds := false }
  | closeOwn {s : Exec} (hchild : s.child = none) : EnvStep s { s with holds := false }
  | fork {s : Exec} (hopen : s.Open) : EnvStep s { s with others := s.others + 1 }
  | close {s : Exec} (hothers : 0 < s.others) : EnvStep s { s with others := s.others - 1 }
  | write {s : Exec} (bs : Bytes) (hopen : s.Open) : EnvStep s { s with pipe := s.pipe ++ bs }
  | readFailed {s : Exec} {kept : Bytes} (hreader : s.reader = .reading kept) :
      EnvStep s { s with reader := .done kept }

def Step (s s' : Exec) : Prop := MainStep s s' ∨ ReaderStep s s' ∨ EnvStep s s'

/-- Any interleaving. -/
abbrev Run : Exec → Exec → Prop := Relation.ReflTransGen Step

/-- All that can happen from a state on, with both threads scheduled fairly. -/
structure Behaviour (s : Exec) (run : Nat → Exec) : Prop where
  zero : run 0 = s
  step : ∀ n, Step (run n) (run (n + 1))
  main : WeaklyFair MainStep run
  reader : WeaklyFair ReaderStep run

/-- `run_exec` has returned. -/
def Returned (s : Exec) : Prop := ∃ resp, s.main = .returned resp

/-- The helper thread is over. -/
def Drained (s : Exec) : Prop := ∃ kept, s.reader = .done kept

/-- Whatever happens from here on, `run_exec` returns. -/
def Returns (s : Exec) : Prop := ∀ run, Behaviour s run → ∃ n, (run n).Returned

/-! ## What holds in every state -/

variable {s s' : Exec} {argv : List String} {spawn : Option OsError}

/-- A child that is over has nothing open, the main thread joins only then, and when it has returned
there is nothing left of the pipe. -/
structure Inv (s : Exec) : Prop where
  holds : s.child.isSome → s.holds = false
  joining : ∀ outcome, s.main = .joining outcome → s.child.isSome
  returned : s.Returned → ¬ s.Open ∨ s.Drained

theorem ReaderStep.main_eq (h : ReaderStep s s') : s'.main = s.main := by
  cases h <;> rfl

theorem ReaderStep.child_eq (h : ReaderStep s s') : s'.child = s.child := by
  cases h <;> rfl

theorem EnvStep.main_eq (h : EnvStep s s') : s'.main = s.main := by
  cases h <;> rfl

/-- A process that is over stays over. -/
theorem Step.isSome_child (h : Step s s') (hchild : s.child.isSome) : s'.child.isSome := by
  rcases h with h | h | h
  · cases h with
    | kill => rfl
    | _ => exact hchild
  · rw [h.child_eq]
    exact hchild
  · cases h with
    | exit => rfl
    | _ => exact hchild

/-- A thread that is over stays over. -/
theorem Step.drained (h : Step s s') (hdrained : s.Drained) : s'.Drained := by
  obtain ⟨kept, hdone⟩ := hdrained
  rcases h with h | h | h
  · cases h <;> exact ⟨kept, hdone⟩
  · cases h with
    | chunk hreader => cases hdone.symm.trans hreader
    | eof => exact ⟨_, rfl⟩
  · cases h with
    | readFailed => exact ⟨_, rfl⟩
    | _ => exact ⟨kept, hdone⟩

/-- What nobody has open is not opened again. -/
theorem Step.not_open (h : Step s s') (hclosed : ¬ s.Open) : ¬ s'.Open := by
  rcases h with h | h | h
  · cases h with
    | kill => exact fun hopen ↦ hclosed (hopen.imp nofun id)
    | _ => exact hclosed
  · cases h <;> exact hclosed
  · cases h with
    | exit => exact fun hopen ↦ hclosed (hopen.imp nofun id)
    | closeOwn => exact fun hopen ↦ hclosed (hopen.imp nofun id)
    | fork hopen => exact absurd hopen hclosed
    | close hothers => exact absurd (.inr hothers) hclosed
    | _ => exact hclosed

/-- Without a process the call has returned, and the pipe is not open. -/
theorem start_main (argv : List String) (spawn : Option OsError) :
    ((start argv spawn).Returned ∧ (start argv spawn).holds = false) ∨
      (start argv spawn).main = .polling := by
  cases argv with
  | nil => exact .inl ⟨⟨_, rfl⟩, rfl⟩
  | cons program args =>
      cases spawn with
      | none => exact .inr rfl
      | some e => exact .inl ⟨⟨_, rfl⟩, rfl⟩

theorem Inv.start : Inv (start argv spawn) where
  holds := nofun
  joining := by
    intro outcome h
    rcases start_main argv spawn with ⟨⟨resp, hmain⟩, -⟩ | hmain
    · cases hmain.symm.trans h
    · cases hmain.symm.trans h
  returned := by
    rintro ⟨resp, h⟩
    left
    rintro (hholds | hothers)
    · rcases start_main argv spawn with ⟨-, hclosed⟩ | hmain
      · rw [hclosed] at hholds
        cases hholds
      · cases hmain.symm.trans h
    · exact absurd hothers (Nat.lt_irrefl 0)

/-- **A step keeps the invariant.** -/
theorem Step.inv (hstep : Step s s') (h : Inv s) : Inv s' where
  holds := by
    intro hchild
    rcases hstep with hstep | hstep | hstep
    · cases hstep with
      | kill => rfl
      | _ => exact h.holds hchild
    · cases hstep <;> exact h.holds hchild
    · cases hstep with
      | exit => rfl
      | closeOwn => rfl
      | _ => exact h.holds hchild
  joining := by
    intro outcome hmain
    by_cases hbefore : ∃ outcome, s.main = .joining outcome
    · obtain ⟨outcome, hbefore⟩ := hbefore
      exact hstep.isSome_child (h.joining outcome hbefore)
    · rcases hstep with hstep | hstep | hstep
      · cases hstep with
        | pollExited _ hchild => exact Option.isSome_iff_exists.mpr ⟨_, hchild⟩
        | kill => rfl
        | _ => cases hmain
      · exact absurd ⟨outcome, hstep.main_eq ▸ hmain⟩ hbefore
      · exact absurd ⟨outcome, hstep.main_eq ▸ hmain⟩ hbefore
  returned := by
    rintro ⟨resp, hmain⟩
    by_cases hbefore : s.Returned
    · exact (h.returned hbefore).imp hstep.not_open hstep.drained
    · rcases hstep with hstep | hstep | hstep
      · cases hstep with
        | join _ hreader => exact .inr ⟨_, hreader⟩
        | _ => cases hmain
      · exact absurd ⟨resp, hstep.main_eq ▸ hmain⟩ hbefore
      · exact absurd ⟨resp, hstep.main_eq ▸ hmain⟩ hbefore

/-- **Every run keeps it.** -/
theorem Run.inv (hrun : Run s s') (h : Inv s) : Inv s' := by
  induction hrun with
  | refl => exact h
  | tail _ hstep ih => exact hstep.inv ih

/-! ## What is sure to happen -/

theorem MainStep.rank_lt (h : MainStep s s') (hchild : s.child.isSome) :
    s'.main.rank < s.main.rank := by
  cases h with
  | pollRunning _ hnone => cases hnone ▸ hchild
  | pollExited hmain | pollFailed _ hmain | timeout hmain | sleep hmain | kill hmain | join hmain =>
      rw [hmain]
      dsimp only [MainPhase.rank]
      omega

/-- The main thread waits for nothing but the helper thread. -/
theorem exists_mainStep (hchild : s.child.isSome) (hmain : ¬ s.Returned)
    (hjoining : (∃ outcome, s.main = .joining outcome) → s.Drained) : ∃ t, MainStep s t := by
  obtain ⟨status, hstatus⟩ := Option.isSome_iff_exists.mp hchild
  cases h : s.main with
  | polling => exact ⟨_, .pollExited h hstatus⟩
  | checking =>
      rcases Nat.lt_or_ge s.now execTimeout with hearly | hlate
      · exact ⟨_, .sleep h hearly (Nat.le_refl 50)⟩
      · exact ⟨_, .timeout h hlate⟩
  | killing outcome => exact ⟨_, .kill h⟩
  | joining outcome =>
      obtain ⟨kept, hreader⟩ := hjoining ⟨outcome, h⟩
      exact ⟨_, .join h hreader⟩
  | returned resp => exact absurd ⟨resp, h⟩ hmain

/-- Once the child and the helper thread are over, `run_exec` returns. -/
theorem Behaviour.returned {run : Nat → Exec} (hrun : Behaviour s run) {n : Nat}
    (hchild : (run n).child.isSome) (hdrained : (run n).Drained) : ∃ m, (run m).Returned := by
  let bothOver := fun s : Exec ↦ s.child.isSome ∧ s.Drained
  have hkeep : ∀ n, bothOver (run n) → ¬ (run n).Returned →
      bothOver (run (n + 1)) ∧
        ((run (n + 1)).Returned ∨ (run (n + 1)).main.rank ≤ (run n).main.rank) := by
    rintro n ⟨hchild, hdrained⟩ -
    have hstep := hrun.step n
    refine ⟨⟨hstep.isSome_child hchild, hstep.drained hdrained⟩, .inr ?_⟩
    rcases hstep with hstep | hstep | hstep
    · exact Nat.le_of_lt (hstep.rank_lt hchild)
    · exact Nat.le_of_eq (congrArg MainPhase.rank hstep.main_eq)
    · exact Nat.le_of_eq (congrArg MainPhase.rank hstep.main_eq)
  obtain ⟨m, -, hgoal⟩ := hrun.main.eventually hkeep
    (fun s hs hmain ↦ exists_mainStep hs.1 hmain fun _ ↦ hs.2)
    (fun s t hs _ hstep ↦ .inr (hstep.rank_lt hs.1)) (show bothOver (run n) from ⟨hchild, hdrained⟩)
  exact ⟨m, hgoal⟩

/-- The helper thread waits for nothing but the processes that have the pipe open. -/
theorem exists_readerStep (hclosed : ¬ s.Open) (hdrained : ¬ s.Drained) :
    ∃ t, ReaderStep s t := by
  cases h : s.reader with
  | done kept => exact absurd ⟨kept, h⟩ hdrained
  | reading kept =>
      cases hpipe : s.pipe with
      | nil => exact ⟨_, .eof h hpipe hclosed⟩
      | cons b bs =>
          refine ⟨_, .chunk h Nat.one_pos ?_ (by decide)⟩
          rw [hpipe, List.length_cons]
          exact Nat.le_add_left 1 _

theorem ReaderStep.drained_or_lt (h : ReaderStep s s') :
    s'.Drained ∨ s'.pipe.length < s.pipe.length := by
  cases h with
  | eof => exact .inl ⟨_, rfl⟩
  | chunk _ hpos hle =>
      right
      rw [List.length_drop]
      exact Nat.sub_lt (Nat.lt_of_lt_of_le hpos hle) hpos

/-- Nothing is written into what nobody has open. -/
theorem Step.pipe_le (h : Step s s') (hclosed : ¬ s.Open) :
    s'.Drained ∨ s'.pipe.length ≤ s.pipe.length := by
  rcases h with h | h | h
  · cases h <;> exact .inr (Nat.le_refl _)
  · exact h.drained_or_lt.imp id Nat.le_of_lt
  · cases h with
    | write _ hopen => exact absurd hopen hclosed
    | _ => exact .inr (Nat.le_refl _)

/-- Once nobody has the pipe open, the helper thread comes to its end. -/
theorem Behaviour.drained {run : Nat → Exec} (hrun : Behaviour s run) {n : Nat}
    (hclosed : ¬ (run n).Open) : ∃ m, n ≤ m ∧ (run m).Drained := by
  have hkeep : ∀ m, ¬ (run m).Open → ¬ (run m).Drained → ¬ (run (m + 1)).Open ∧
      ((run (m + 1)).Drained ∨ (run (m + 1)).pipe.length ≤ (run m).pipe.length) :=
    fun m hclosed _ ↦ ⟨(hrun.step m).not_open hclosed, (hrun.step m).pipe_le hclosed⟩
  exact hrun.reader.eventually hkeep (fun s hclosed hreader ↦ exists_readerStep hclosed hreader)
    (fun s t _ _ hstep ↦ hstep.drained_or_lt) hclosed

/-- How far the main thread is from the deadline. -/
def untilDeadline (s : Exec) : Nat :=
  match s.main with
  | .polling => 2 * (execTimeout - s.now) + 2
  | .checking => 2 * (execTimeout - s.now) + 1
  | _ => 0

/-- The child is over, or there was none. -/
def Ended (s : Exec) : Prop := s.child.isSome ∨ s.Returned

theorem MainStep.ended_or_lt (h : MainStep s s') (hended : ¬ s.Ended) :
    s'.Ended ∨ s'.untilDeadline < s.untilDeadline := by
  cases h with
  | pollExited _ hchild => exact absurd (.inl (Option.isSome_iff_exists.mpr ⟨_, hchild⟩)) hended
  | kill => exact .inl (.inl rfl)
  | join => exact .inl (.inr ⟨_, rfl⟩)
  | pollRunning hmain | pollFailed _ hmain | timeout hmain | sleep hmain =>
      right
      simp only [untilDeadline, hmain]
      omega

theorem Step.ended_or_le (h : Step s s') (hended : ¬ s.Ended) :
    s'.Ended ∨ s'.untilDeadline ≤ s.untilDeadline := by
  rcases h with h | h | h
  · exact (h.ended_or_lt hended).imp id Nat.le_of_lt
  · right
    cases h <;> exact Nat.le_refl _
  · cases h with
    | tick =>
        right
        unfold untilDeadline
        dsimp only
        split <;> omega
    | exit => exact .inl (.inl rfl)
    | _ => exact .inr (Nat.le_refl _)

/-- **The deadline ends the child**, whatever it does. -/
theorem Behaviour.ended {run : Nat → Exec} (hrun : Behaviour s run) (h : Inv s) :
    ∃ n, (run n).Ended := by
  have hkeep : ∀ n, Inv (run n) → ¬ (run n).Ended → Inv (run (n + 1)) ∧
      ((run (n + 1)).Ended ∨ (run (n + 1)).untilDeadline ≤ (run n).untilDeadline) :=
    fun n hinv hended ↦ ⟨(hrun.step n).inv hinv, (hrun.step n).ended_or_le hended⟩
  have henabled : ∀ t, Inv t → ¬ t.Ended → ∃ t', MainStep t t' := by
    intro t hinv hended
    cases hmain : t.main with
    | polling =>
        cases hchild : t.child with
        | none => exact ⟨_, .pollRunning hmain hchild⟩
        | some status => exact ⟨_, .pollExited hmain hchild⟩
    | checking =>
        rcases Nat.lt_or_ge t.now execTimeout with hearly | hlate
        · exact ⟨_, .sleep hmain hearly (Nat.le_refl 50)⟩
        · exact ⟨_, .timeout hmain hlate⟩
    | killing outcome => exact ⟨_, .kill hmain⟩
    | joining outcome => exact absurd (.inl (hinv.joining outcome hmain)) hended
    | returned resp => exact absurd (.inr ⟨resp, hmain⟩) hended
  obtain ⟨n, -, hended⟩ := hrun.main.eventually hkeep henabled
    (fun t t' _ hended hstep ↦ hstep.ended_or_lt hended) (hrun.zero ▸ h : Inv (run 0))
  exact ⟨n, hended⟩

/-! ## What is not -/

/-- A step before a behaviour. -/
theorem Behaviour.cons {run : Nat → Exec} (hstep : Step s s') (hrun : Behaviour s' run) :
    Behaviour s (consRun s run) where
  zero := rfl
  step := by
    intro n
    cases n with
    | zero =>
        show Step s (run 0)
        rw [hrun.zero]
        exact hstep
    | succ n => exact hrun.step n
  main := hrun.main.cons s
  reader := hrun.reader.cons s

/-- What is sure before a step is sure after it. -/
theorem Returns.of_step (h : s.Returns) (hstep : Step s s') (hmain : ¬ s.Returned) :
    s'.Returns := by
  intro run hrun
  obtain ⟨n, hn⟩ := h _ (hrun.cons hstep)
  cases n with
  | zero => exact absurd hn hmain
  | succ n => exact ⟨n, hn⟩

/-- Somebody else has the pipe open, and the helper thread reads. -/
structure Held (s : Exec) : Prop where
  others : 0 < s.others
  reading : ¬ s.Drained

/-- When the main thread joins, and the pipe is empty, nothing need happen any more. -/
theorem Held.not_returns_of_empty (h : Held s) {outcome : ExecOutcome}
    (hmain : s.main = .joining outcome) (hpipe : s.pipe = []) : ¬ s.Returns := by
  intro hreturns
  have hbehaviour : Behaviour s fun n ↦ { s with now := s.now + n } := by
    refine ⟨rfl, fun n ↦ .inr (.inr (.tick 1)), ?_, ?_⟩
    · intro n henabled
      obtain ⟨t, hstep⟩ := henabled n (Nat.le_refl n)
      cases hstep with
      | join _ hreader => exact absurd ⟨_, hreader⟩ h.reading
      | pollExited hother | pollRunning hother | pollFailed _ hother | timeout hother
      | sleep hother | kill hother => cases hmain.symm.trans hother
    · intro n henabled
      obtain ⟨t, hstep⟩ := henabled n (Nat.le_refl n)
      cases hstep with
      | chunk _ hpos hle =>
          dsimp only at hle
          rw [hpipe] at hle
          exact absurd (Nat.lt_of_lt_of_le hpos hle) (Nat.lt_irrefl 0)
      | eof _ _ hclosed => exact absurd (.inr h.others) hclosed
  obtain ⟨n, resp, hreturned⟩ := hreturns _ hbehaviour
  cases hmain.symm.trans hreturned

/-- What is left in the pipe makes no difference. -/
theorem Held.not_returns_of_joining {outcome : ExecOutcome} (h : Held s)
    (hmain : s.main = .joining outcome) : ¬ s.Returns := by
  -- by induction on the bytes that are left: the helper thread reads one of them
  induction hlen : s.pipe.length generalizing s with
  | zero => exact h.not_returns_of_empty hmain (List.eq_nil_of_length_eq_zero hlen)
  | succ n ih =>
      intro hreturns
      cases hreader : s.reader with
      | done kept => exact h.reading ⟨kept, hreader⟩
      | reading kept =>
          have hbefore : ¬ s.Returned := by
            rintro ⟨resp, hreturned⟩
            cases hmain.symm.trans hreturned
          have hnext := hreturns.of_step (.inr (.inl (.chunk hreader Nat.one_pos
            (hlen ▸ Nat.le_add_left 1 n) (by decide)))) hbefore
          refine ih ?_ ?_ ?_ hnext
          · refine ⟨h.others, ?_⟩
            rintro ⟨kept, hdone⟩
            cases hdone
          · exact hmain
          · dsimp only
            rw [List.length_drop, hlen]
            exact Nat.add_sub_cancel n 1

theorem MainStep.held (hstep : MainStep s s') (h : Held s) : Held s' ∧ ¬ s'.Returned := by
  obtain ⟨hothers, hreading⟩ := h
  cases hstep with
  | join _ hreader => exact absurd ⟨_, hreader⟩ hreading
  | _ => exact ⟨⟨hothers, hreading⟩, fun ⟨_, hreturned⟩ ↦ nomatch hreturned⟩

/-- Nor does it make a difference where the main thread is, once the child is over. -/
theorem Held.not_returns (h : Held s) (hchild : s.child.isSome) (hbefore : ¬ s.Returned) :
    ¬ s.Returns := by
  -- by induction on the steps that are left to the main thread
  induction hrank : s.main.rank using Nat.strongRecOn generalizing s with
  | ind r ih =>
      intro hreturns
      by_cases hjoining : ∃ outcome, s.main = .joining outcome
      · obtain ⟨outcome, hmain⟩ := hjoining
        exact h.not_returns_of_joining hmain hreturns
      · obtain ⟨t, hstep⟩ := exists_mainStep hchild hbefore fun hmain ↦ absurd hmain hjoining
        obtain ⟨hheld, hafter⟩ := hstep.held h
        have hover : t.child.isSome := Step.isSome_child (.inl hstep) hchild
        exact ih _ (hrank ▸ hstep.rank_lt hchild) hheld hover hafter rfl
          (hreturns.of_step (.inl hstep) hbefore)

/-! ## When the timeout is hard -/

/-- **When `run_exec` is sure to return.**  In every state that it can reach, with any behaviour of
the child and its descendants: what comes then ends the child, at the deadline if not before; and
once the child is over, `run_exec` returns whatever happens exactly if no other process has the pipe
open, or the helper thread is over already. -/
theorem returns_iff (hrun : Run (start argv spawn) s) :
    (∀ run, Behaviour s run → ∃ n, (run n).Ended) ∧
      (s.child.isSome → (s.Returns ↔ s.others = 0 ∨ s.Drained)) := by
  have h := Run.inv hrun .start
  refine ⟨fun run hbehaviour ↦ hbehaviour.ended h, fun hchild ↦ ⟨fun hreturns ↦ ?_, fun hfree ↦ ?_⟩⟩
  · by_contra hheld
    rw [not_or] at hheld
    have hothers := Nat.pos_of_ne_zero hheld.1
    refine Held.not_returns ⟨hothers, hheld.2⟩ hchild (fun hreturned ↦ ?_) hreturns
    exact (h.returned hreturned).elim (absurd (.inr hothers)) hheld.2
  · intro run hbehaviour
    have hover : ∀ n, (run n).child.isSome := by
      intro n
      induction n with
      | zero => exact hbehaviour.zero ▸ hchild
      | succ n ih => exact (hbehaviour.step n).isSome_child ih
    have hdrained : ∃ n, (run n).Drained := by
      rcases hfree with hothers | hdrained
      · have hclosed : ¬ (run 0).Open := by
          rw [hbehaviour.zero]
          rintro (hholds | hpos)
          · exact absurd (h.holds hchild) (ne_of_eq_of_ne hholds nofun)
          · exact absurd hothers (Nat.ne_of_gt hpos)
        obtain ⟨n, -, hn⟩ := hbehaviour.drained hclosed
        exact ⟨n, hn⟩
      · exact ⟨0, hbehaviour.zero ▸ hdrained⟩
    obtain ⟨n, hn⟩ := hdrained
    exact hbehaviour.returned (hover n) hn

/-- The package manager starts a descendant, which inherits the pipe and keeps it open, and exits
with success: `run_exec` need not return. -/
theorem not_forall_returns :
    ¬ ∀ s, Run (start ["/usr/bin/apt-get", "update", "-y"] none) s →
      s.child.isSome ∨ execTimeout ≤ s.now → s.Returns := by
  intro h
  have hrun : Run (start ["/usr/bin/apt-get", "update", "-y"] none) _ :=
    (Relation.ReflTransGen.single (.inr (.inr (.fork (.inl rfl))))).tail
      (.inr (.inr (.exit (.code 0) rfl)))
  refine Held.not_returns ?_ ?_ ?_ (h _ hrun (.inl rfl))
  · refine ⟨Nat.one_pos, ?_⟩
    rintro ⟨kept, hdone⟩
    cases hdone
  · rfl
  · rintro ⟨resp, hreturned⟩
    cases hreturned

/-- The package manager exits with success and leaves nothing behind. -/
theorem returns_iff_alone :
    ∃ s, Run (start ["/usr/bin/apt-get", "update", "-y"] none) s ∧
      s.child = some (.code 0) ∧ s.Returns := by
  have hrun : Run (start ["/usr/bin/apt-get", "update", "-y"] none) _ :=
    Relation.ReflTransGen.single (.inr (.inr (.exit (.code 0) rfl)))
  exact ⟨_, hrun, rfl, ((returns_iff hrun).2 rfl).mpr (.inl rfl)⟩

end Exec

end Vaiexia.Privd
