import Mathlib.Logic.Function.Basic
import Vaiexia.Privd.Frames

/-!
# Package operations from end to end

`RealPackageManager` of `crates/vaiexia-server/src/backend/packages/real.rs` at one end of the
socket and the accept loop of `vaiexia-privd` at the other.  The daemon makes any number of calls at
a time, each on a connection of its own, and other processes may connect as well; the helper serves
one connection after another.  Connections break anywhere, calls give up, and the helper may be
started anew.

`package_operations` is what a call that has returned knows: which command was run for it, and that
it is over.
-/

namespace Vaiexia.Privd

open Vaiexia.Lib Utf8 Stream
open Vaiexia.Backend (BackendError)

/-! ## The daemon -/

/-- `response_to_result`. -/
def responseToResult : PrivResponse → Except BackendError Unit
  | .ok => .ok ()
  | .error message => .error (.internal message)
  | .pong => .error (.internal "unexpected privd response: Pong")
  | .protoVersion version =>
      .error (.internal ("unexpected privd response: ProtoVersion \x7b version: " ++
        String.ofList (Nat.toDigits 10 version) ++ " \x7d"))

/-- The operations of `RealPackageManager` that the helper runs. -/
inductive PackageOp where
  | install | remove
deriving DecidableEq

/-- The request of an operation. -/
def PackageOp.request : PackageOp → PackageName → PrivRequest
  | install => .pkgInstall
  | remove => .pkgRemove

/-- The command of an operation. -/
def PackageOp.argv : PackageOp → PackageKind → String → List String
  | install => installArgv
  | remove => removeArgv

/-- An operation on a package.  `request` is the blocking call of the transport, which has no result
if its task is lost. -/
def PackageOp.run (op : PackageOp)
    (request : PrivRequest → Option (Except BackendError PrivResponse)) (name : String) :
    Except BackendError Unit :=
  match PackageName.parse name with
  | none => .error (.invalidInput ("invalid package name: " ++ name))
  | some pkgName =>
      match request (op.request pkgName) with
      | none => .error .unavailable
      | some (.error e) => .error e
      | some (.ok resp) => responseToResult resp

/-- `RealPackageManager::install`. -/
def install (request : PrivRequest → Option (Except BackendError PrivResponse)) (name : String) :
    Except BackendError Unit := PackageOp.install.run request name

/-- `RealPackageManager::remove`. -/
def remove (request : PrivRequest → Option (Except BackendError PrivResponse)) (name : String) :
    Except BackendError Unit := PackageOp.remove.run request name

/-- The command of a request that names its package. -/
theorem dispatch_request (op : PackageOp) (name : PackageName) (kind : PackageKind)
    (allowlist : Allowlist) :
    dispatch (op.request name) kind false allowlist =
      if allowlist.permits name.text then .exec (op.argv kind name.text)
      else .respond (.error "rejected: package not in allowlist") := by
  cases op <;> cases hpermits : allowlist.permits name.text <;>
    simp [dispatch, PackageOp.request, PackageOp.argv, verbToArgv, hpermits]

theorem PackageOp.argv_ne_nil (op : PackageOp) (kind : PackageKind) (name : String) :
    op.argv kind name ≠ [] := by
  cases op <;> cases kind <;> exact List.cons_ne_nil _ _

/-! ## Parts of a frame -/

/-- A frame. -/
def frameOf (payload : Bytes) : Bytes := toBeBytes (.ofNat payload.length) ++ payload

section Prefix

variable {payload bs : Bytes}

/-- The part of a frame that is there is all of it, or cannot be read. -/
theorem frameOf_prefix (hle : payload.length ≤ 2 ^ 20) (hbs : bs <+: frameOf payload) :
    bs.length < 4 ∨
      ∃ a b c d rest, bs = a :: b :: c :: d :: rest ∧ ofBeBytes a b c d = payload.length ∧
        rest <+: payload := by
  rcases Nat.lt_or_ge bs.length 4 with hlt | hge
  · exact .inl hlt
  · obtain ⟨rest, hrest⟩ := List.prefix_of_prefix_length_le
      (List.prefix_append (toBeBytes (.ofNat payload.length)) payload) hbs hge
    refine .inr ⟨_, _, _, _, rest, hrest.symm, ?_, ?_⟩
    · refine (ofBeBytes_toBeBytes _).trans (UInt32.toNat_ofNat_of_lt ?_)
      exact Nat.lt_of_le_of_lt hle (by decide)
    · rw [← hrest, frameOf] at hbs
      exact (List.prefix_append_right_inj _).mp hbs

theorem readFrame_of_prefix (hle : payload.length ≤ 2 ^ 20) (hbs : bs <+: frameOf payload) :
    readFrame bs = none ∨ readFrame bs = some payload := by
  rcases frameOf_prefix hle hbs with hlt | ⟨a, b, c, d, rest, rfl, hlen, hrest⟩
  · left
    rcases bs with _ | ⟨a, _ | ⟨b, _ | ⟨c, _ | ⟨d, rest⟩⟩⟩⟩
    · rfl
    · rfl
    · rfl
    · rfl
    · simp only [List.length_cons] at hlt
      omega
  · have hdef : readFrame (a :: b :: c :: d :: rest) =
        if maxRequestBytes < ofBeBytes a b c d then none
        else if rest.length < ofBeBytes a b c d then none
        else some (rest.take (ofBeBytes a b c d)) := rfl
    have hmax : ¬ maxRequestBytes < payload.length := Nat.not_lt_of_le hle
    rw [hdef, hlen, if_neg hmax]
    rcases Nat.lt_or_ge rest.length payload.length with hshort | hlong
    · exact .inl (if_pos hshort)
    · obtain rfl := hrest.eq_of_length_le hlong
      exact .inr (by rw [if_neg (Nat.lt_irrefl _), List.take_length])

theorem readLengthPrefixed_of_prefix {pieces : List Bytes} (hle : payload.length ≤ 2 ^ 20)
    (hpieces : pieces.flatten <+: frameOf payload) :
    (readLengthPrefixed (2 ^ 20) pieces).1 = .failed ∨
      (readLengthPrefixed (2 ^ 20) pieces).1 = .frame payload := by
  rcases frameOf_prefix hle hpieces with hlt | ⟨a, b, c, d, rest, hflat, hlen, hrest⟩
  · left
    rw [readLengthPrefixed, readExact_eq_none hlt]
  · rcases Nat.lt_or_ge rest.length payload.length with hshort | hlong
    · left
      obtain ⟨left, hread, hleft⟩ := @readExact_eq 4 pieces (by
        rw [hflat]
        simp only [List.length_cons]
        omega)
      rw [hflat] at hread hleft
      have hnone : readExact (ofBeBytes a b c d) left = none :=
        readExact_eq_none (by
          rw [hleft, hlen]
          exact hshort)
      rw [readLengthPrefixed, hread]
      dsimp only [List.take]
      rw [hlen, if_neg (Nat.not_lt_of_le hle), ← hlen, hnone]
    · right
      obtain rfl := hrest.eq_of_length_le hlong
      obtain ⟨left, hread, -⟩ := readLengthPrefixed_eq hlen hle
        (hflat.trans (by rw [List.append_nil] : _ = a :: b :: c :: d :: (rest ++ [])))
      rw [hread]

end Prefix

section Messages

variable {fromStr : List Char → Option Json}

/-- The helper closes the connection of a call, or decodes the request of the call. -/
theorem handleConnection_of_prefix (hread : Json.ReadsBack fromStr) {req : PrivRequest}
    {cfg : Config} (conn : Connection) (hsent : conn.sent <+: frameOf (toVec req.toJson)) :
    handleConnection (fun bs ↦ (decode bs).bind fromStr) cfg conn = none ∨
      conn.peerUid = some cfg.daemonUid ∧
        handleConnection (fun bs ↦ (decode bs).bind fromStr) cfg conn =
          some (dispatch req cfg.kind conn.busy cfg.allowlist) := by
  unfold handleConnection
  split
  · exact .inl rfl
  · rename_i huid
    split
    · exact .inl rfl
    · rcases readFrame_of_prefix req.length_le hsent with hnone | hframe
      · rw [hnone]
        exact .inl rfl
      · rw [hframe]
        dsimp only
        rw [fromSlice_toVec hread req.readable, Option.bind_some, req.fromJson_toJson]
        exact .inr ⟨not_not.mp huid, rfl⟩

/-- A call reads the response of the helper, or none. -/
theorem sendRequest_of_prefixed (hread : Json.ReadsBack fromStr) {resp : PrivResponse}
    (hsmall : resp.Small) {channel : Channel}
    (hreads : channel.reads.flatten <+: frameOf (toVec resp.toJson)) (req : PrivRequest) :
    sendRequest (fun bs ↦ (decode bs).bind fromStr) channel req = .error .unavailable ∨
      sendRequest (fun bs ↦ (decode bs).bind fromStr) channel req = .ok resp := by
  unfold sendRequest
  split
  · exact .inl rfl
  · split
    · exact .inl rfl
    · split
      · rename_i hlarge
        exact absurd hlarge (writeLengthPrefixed_ne_tooLarge req.length_le)
      · exact .inl rfl
      · unfold receiveResponse
        rcases readLengthPrefixed_of_prefix (PrivResponse.length_le hsmall) hreads
          with hfailed | hframe
        · left
          split <;> simp_all
        · right
          split <;> simp_all [fromSlice_toVec hread (PrivResponse.readable hsmall),
            PrivResponse.fromJson_toJson hsmall]

end Messages

/-! ## The end of a command -/

namespace Exec

/-- What the main thread knows of the child. -/
def Knows (s : Exec) : Prop :=
  match s.main with
  | .killing (.exited _) => False
  | .joining (.exited status) => s.child = some status
  | .joining _ => s.child.isSome
  | .returned resp => ∃ status, s.child = some status ∧ (resp = .ok → status.success = true)
  | _ => True

variable {s s' : Exec} {argv : List String} {spawn : Option OsError}

theorem Step.child_eq (h : Step s s') {status : ExitStatus} (hchild : s.child = some status) :
    s'.child = some status := by
  rcases h with h | h | h
  · cases h with
    | kill => simp [hchild]
    | _ => exact hchild
  · rw [h.child_eq]
    exact hchild
  · cases h with
    | exit _ hnone => cases hnone.symm.trans hchild
    | _ => exact hchild

/-- What a child that is over leaves is not an error only if it succeeded. -/
theorem ExecOutcome.success_of_response {status : ExitStatus} {kept : Bytes}
    (h : (ExecOutcome.exited status).response kept = .ok) : status.success = true := by
  unfold ExecOutcome.response at h
  dsimp only at h
  split at h
  · assumption
  · cases h

theorem Step.knows (hstep : Step s s') (h : s.Knows) : s'.Knows := by
  have hkeep : s'.main = s.main → s'.Knows := by
    intro hmain
    unfold Knows at h ⊢
    rw [hmain]
    split at h
    · exact h
    · exact hstep.child_eq h
    · exact hstep.isSome_child h
    · obtain ⟨status, hchild, hok⟩ := h
      exact ⟨status, hstep.child_eq hchild, hok⟩
    · trivial
  rcases hstep with hstep | hstep | hstep
  · cases hstep with
    | pollExited _ hchild => exact hchild
    | pollRunning | pollFailed | timeout | sleep => trivial
    | @kill outcome hmain =>
        rw [Knows, hmain] at h
        cases outcome with
        | exited status => cases h
        | timedOut | waitFailed => rfl
    | @join outcome kept hmain _ =>
        rw [Knows, hmain] at h
        cases outcome with
        | exited status => exact ⟨status, h, ExecOutcome.success_of_response⟩
        | timedOut | waitFailed e =>
            obtain ⟨status, hchild⟩ := Option.isSome_iff_exists.mp h
            exact ⟨status, hchild, fun hok ↦ by cases hok⟩
  · exact hkeep hstep.main_eq
  · exact hkeep hstep.main_eq

/-- A call that found no process to wait for. -/
theorem Step.returned (hstep : Step s s') {resp : PrivResponse} (h : s.main = .returned resp) :
    s'.main = .returned resp := by
  rcases hstep with hstep | hstep | hstep
  · cases hstep with
    | pollExited hmain | pollRunning hmain | pollFailed _ hmain | timeout hmain | sleep hmain
    | kill hmain | join hmain => cases h.symm.trans hmain
  · exact hstep.main_eq.trans h
  · exact hstep.main_eq.trans h

theorem Run.returned (hrun : Run s s') {resp : PrivResponse} (h : s.main = .returned resp) :
    s'.main = .returned resp := by
  induction hrun with
  | refl => exact h
  | tail _ hstep ih => exact hstep.returned ih

theorem Run.knows (hrun : Run s s') (h : s.Knows) : s'.Knows := by
  induction hrun with
  | refl => exact h
  | tail _ hstep ih => exact hstep.knows ih

/-- **What `run_exec` has returned says of the command**: it was not started, or it is over, and if
the response is not an error it succeeded. -/
theorem Run.ended (hrun : Run (start argv spawn) s) (hargv : argv ≠ []) {resp : PrivResponse}
    (h : s.main = .returned resp) :
    (∃ e, spawn = some e ∧ resp = .error (String.ofList ("io: ".toList ++ e.display))) ∨
      spawn = none ∧ ∃ status, s.child = some status ∧ (resp = .ok → status.success = true) := by
  cases argv with
  | nil => exact absurd rfl hargv
  | cons program args =>
      cases spawn with
      | some e =>
          have hmain : s.main = .returned (.error (String.ofList ("io: ".toList ++ e.display))) :=
            hrun.returned rfl
          cases h.symm.trans hmain
          exact .inl ⟨e, rfl, rfl⟩
      | none =>
          have hknows := hrun.knows (s := start (program :: args) none) trivial
          rw [Knows, h] at hknows
          exact .inr ⟨rfl, hknows⟩

end Exec

/-! ## Connections -/

/-- How far the helper is with a connection. -/
inductive Stage where
  | closed
  | waiting
  | serving
  | executing (argv : List String) (exec : Exec)
  | ended

/-- The helper serves the connection. -/
def Stage.Busy : Stage → Prop
  | serving | executing _ _ => True
  | closed | waiting | ended => False

theorem Stage.Busy.ne_closed {stage : Stage} (h : stage.Busy) : stage ≠ .closed := by
  rintro rfl
  exact h

theorem Stage.Busy.ne_ended {stage : Stage} (h : stage.Busy) : stage ≠ .ended := by
  rintro rfl
  exact h

/-- A connection: the uid the socket tells, what went each way, and what its call has returned; and,
which is not part of the programs, the commands that were started for it and the statuses with which
they were over. -/
structure Link where
  stage : Stage
  peerUid : Option Nat
  sent : Bytes
  back : Bytes
  result : Option (Except BackendError Unit)
  spawned : List (List String)
  reaped : List ExitStatus

/-- The call of the transport in a blocking task, which may be lost. -/
def spawnBlocking (fromSlice : Bytes → Option Json) (channel : Channel) (joined : Bool)
    (req : PrivRequest) : Option (Except BackendError PrivResponse) :=
  if joined then some (sendRequest fromSlice channel req) else none

namespace Link

/-- Before it is made. -/
def new : Link where
  stage := .closed
  peerUid := none
  sent := []
  back := []
  result := none
  spawned := []
  reaped := []

/-- A step of the end that connects: a call of an operation of the daemon on a name, or another
process, which sends what it wants. -/
inductive PeerStep (fromSlice : Bytes → Option Json) (call : Option (PackageOp × String)) :
    Link → Link → Prop
  /-- The daemon connects only for a name that is one. -/
  | connect {l : Link} (peerUid : Option Nat) (hstage : l.stage = .closed)
      (hresult : l.result = none)
      (hname : ∀ op name, call = some (op, name) → (PackageName.parse name).isSome) :
      PeerStep fromSlice call l { l with stage := .waiting, peerUid }
  | send {l : Link} (bs : Bytes) (hstage : l.stage ≠ .closed) (hresult : l.result = none)
      (hframe : ∀ op name pkgName, call = some (op, name) → PackageName.parse name = some pkgName →
        l.sent ++ bs <+: frameOf (toVec (op.request pkgName).toJson)) :
      PeerStep fromSlice call l { l with sent := l.sent ++ bs }
  /-- The call returns, with what it made of its channel. -/
  | answer {l : Link} {op : PackageOp} {name : String} (channel : Channel) (joined : Bool)
      (hcall : call = some (op, name)) (hresult : l.result = none)
      (hconnected : channel.connected = true → l.stage ≠ .closed)
      (hwritten : ∀ pkgName pieces, PackageName.parse name = some pkgName →
        writeRequest channel.sizes (op.request pkgName) = .written pieces →
          l.sent = pieces.flatten)
      (hreads : channel.reads.flatten <+: l.back) :
      PeerStep fromSlice call l { l with
        result := some (op.run (spawnBlocking fromSlice channel joined) name) }

/-- What the helper has read. -/
def connection (l : Link) (timeoutsSet busy : Bool) : Connection where
  peerUid := l.peerUid
  timeoutsSet := timeoutsSet
  busy := busy
  sent := l.sent

end Link

/-- The helper: the connections, the one that it serves, and its `job_lock`. -/
structure Helper (ι : Type) where
  links : ι → Link
  current : Option ι
  jobLock : Bool

namespace Helper

variable {ι : Type} [DecidableEq ι]

/-- The helper as it starts. -/
def new : Helper ι where
  links := fun _ ↦ .new
  current := none
  jobLock := false

/-- One connection goes on. -/
def set (s : Helper ι) (i : ι) (l : Link) : ι → Link := Function.update s.links i l

/-- One step of the daemon's calls, of other processes, of the accept loop, or of a command that is
run.  A response may be written in part. -/
inductive Step (fromSlice : Bytes → Option Json) (cfg : Config)
    (calls : ι → Option (PackageOp × String)) : Helper ι → Helper ι → Prop
  | peer {s : Helper ι} {i : ι} {l : Link} (h : Link.PeerStep fromSlice (calls i) (s.links i) l) :
      Step fromSlice cfg calls s { s with links := s.set i l }
  | accept {s : Helper ι} {i : ι} (hfree : s.current = none)
      (hstage : (s.links i).stage = .waiting) :
      Step fromSlice cfg calls s { s with
        links := s.set i { s.links i with stage := .serving }
        current := some i }
  | close {s : Helper ι} {i : ι} (hstage : (s.links i).stage = .serving) (timeoutsSet : Bool)
      (hclose : handleConnection fromSlice cfg
        ((s.links i).connection timeoutsSet s.jobLock) = none) :
      Step fromSlice cfg calls s { s with
        links := s.set i { s.links i with stage := .ended }
        current := none }
  | respond {s : Helper ι} {i : ι} {resp : PrivResponse} {back : Bytes}
      (hstage : (s.links i).stage = .serving) (timeoutsSet : Bool)
      (hrespond : handleConnection fromSlice cfg
        ((s.links i).connection timeoutsSet s.jobLock) = some (.respond resp))
      (hback : back <+: frameOf (toVec resp.toJson)) :
      Step fromSlice cfg calls s { s with
        links := s.set i { s.links i with stage := .ended, back }
        current := none }
  /-- `dispatch` takes the lock, and `run_exec` spawns the command. -/
  | exec {s : Helper ι} {i : ι} {argv : List String} (hstage : (s.links i).stage = .serving)
      (timeoutsSet : Bool)
      (hexec : handleConnection fromSlice cfg
        ((s.links i).connection timeoutsSet s.jobLock) = some (.exec argv))
      (spawn : Option OsError) :
      Step fromSlice cfg calls s { s with
        links := s.set i { s.links i with
          stage := .executing argv (Exec.start argv spawn)
          spawned := (s.links i).spawned ++ if spawn.isSome then [] else [argv] }
        jobLock := true }
  | run {s : Helper ι} {i : ι} {argv : List String} {e e' : Exec}
      (hstage : (s.links i).stage = .executing argv e) (hstep : Exec.Step e e') :
      Step fromSlice cfg calls s { s with
        links := s.set i { s.links i with stage := .executing argv e' } }
  | finish {s : Helper ι} {i : ι} {argv : List String} {e : Exec} {resp : PrivResponse}
      {back : Bytes} (hstage : (s.links i).stage = .executing argv e)
      (hreturned : e.main = .returned resp) (hback : back <+: frameOf (toVec resp.toJson)) :
      Step fromSlice cfg calls s {
        links := s.set i { s.links i with
          stage := .ended
          back
          reaped := (s.links i).reaped ++ e.child.toList }
        current := none
        jobLock := false }
  /-- A connection that waits is reset. -/
  | reset {s : Helper ι} {i : ι} (hstage : (s.links i).stage = .waiting) :
      Step fromSlice cfg calls s { s with links := s.set i { s.links i with stage := .ended } }
  /-- The helper ends, and is started anew.  A command that is running ends with it: the child is
  not killed when its handle is dropped, but systemd kills what is left of the service. -/
  | restart {s : Helper ι} {i : ι} (hcurrent : s.current = some i) :
      Step fromSlice cfg calls s {
        links := s.set i { s.links i with stage := .ended }
        current := none
        jobLock := false }

/-- Any interleaving. -/
abbrev Run (fromSlice : Bytes → Option Json) (cfg : Config)
    (calls : ι → Option (PackageOp × String)) : Helper ι → Helper ι → Prop :=
  Relation.ReflTransGen (Step fromSlice cfg calls)

end Helper

/-! ## What holds of a connection -/

section Invariant

variable {allowlistFile : Except IoError Bytes} {cfg : Config}

namespace Link

/-- A command that may be run for a connection: an authorized one for a request of the daemon, and
for a call the request of the call. -/
def MayRun (allowlistFile : Except IoError Bytes) (cfg : Config)
    (call : Option (PackageOp × String)) (peerUid : Option Nat) (argv : List String) : Prop :=
  peerUid = some cfg.daemonUid ∧ ∃ req, Authorized allowlistFile cfg.kind req argv ∧
    ∀ op name, call = some (op, name) →
      ∃ pkgName, PackageName.parse name = some pkgName ∧ req = op.request pkgName

/-- A response that the helper may give to a call on a name: a refusal, the error of a command that
could not be started, or that of one that is over. -/
inductive Answered (cfg : Config) (op : PackageOp) (name : PackageName)
    (spawned : List (List String)) (reaped : List ExitStatus) : PrivResponse → Prop
  | refused (hpermits : cfg.allowlist.permits name.text = false) (hspawned : spawned = []) :
      Answered cfg op name spawned reaped (.error "rejected: package not in allowlist")
  | notStarted (e : OsError) (hspawned : spawned = []) :
      Answered cfg op name spawned reaped (.error (String.ofList ("io: ".toList ++ e.display)))
  | ended {resp : PrivResponse} {status : ExitStatus}
      (hspawned : spawned = [op.argv cfg.kind name.text]) (hreaped : reaped = [status])
      (hok : resp = .ok → status.success = true) : Answered cfg op name spawned reaped resp

/-- What a call on a name has returned. -/
inductive Outcome (cfg : Config) (op : PackageOp) (name : String)
    (spawned : List (List String)) (reaped : List ExitStatus) : Except BackendError Unit → Prop
  | invalid (hname : PackageName.parse name = none) (hspawned : spawned = []) :
      Outcome cfg op name spawned reaped (.error (.invalidInput ("invalid package name: " ++ name)))
  | done {status : ExitStatus} (hspawned : spawned = [op.argv cfg.kind name])
      (hreaped : reaped = [status]) (hsuccess : status.success = true) :
      Outcome cfg op name spawned reaped (.ok ())
  | failed {status : ExitStatus} (message : String) (hspawned : spawned = [op.argv cfg.kind name])
      (hreaped : reaped = [status]) :
      Outcome cfg op name spawned reaped (.error (.internal message))
  | refused (hpermits : cfg.allowlist.permits name = false) (hspawned : spawned = []) :
      Outcome cfg op name spawned reaped (.error (.internal "rejected: package not in allowlist"))
  | notStarted (e : OsError) (hspawned : spawned = []) :
      Outcome cfg op name spawned reaped
        (.error (.internal (String.ofList ("io: ".toList ++ e.display))))
  | unavailable : Outcome cfg op name spawned reaped (.error .unavailable)

/-- The invariant of a connection. -/
structure Inv (allowlistFile : Except IoError Bytes) (cfg : Config)
    (call : Option (PackageOp × String)) (l : Link) : Prop where
  sent : ∀ op name pkgName, call = some (op, name) → PackageName.parse name = some pkgName →
    l.sent <+: frameOf (toVec (op.request pkgName).toJson)
  named : ∀ op name, call = some (op, name) → l.stage ≠ .closed → (PackageName.parse name).isSome
  spawned : l.spawned = [] ∨
    ∃ argv, l.spawned = [argv] ∧ MayRun allowlistFile cfg call l.peerUid argv
  idle : l.stage = .closed ∨ l.stage = .waiting ∨ l.stage = .serving →
    l.spawned = [] ∧ l.reaped = []
  executing : ∀ argv e, l.stage = .executing argv e → MayRun allowlistFile cfg call l.peerUid argv ∧
    l.reaped = [] ∧ ∃ spawn, Exec.Run (Exec.start argv spawn) e ∧
      l.spawned = if spawn.isSome then [] else [argv]
  back : l.back = [] ∨ l.stage = .ended ∧ ∀ op name pkgName, call = some (op, name) →
    PackageName.parse name = some pkgName → ∃ resp, resp.Small ∧
      l.back <+: frameOf (toVec resp.toJson) ∧ Answered cfg op pkgName l.spawned l.reaped resp
  result : ∀ r, l.result = some r → r = .error .unavailable ∨ l.stage = .closed ∨ l.stage = .ended
  outcome : ∀ op name r, call = some (op, name) → l.result = some r →
    Outcome cfg op name l.spawned l.reaped r

variable {call : Option (PackageOp × String)} {l l' : Link}

theorem Inv.new : Inv allowlistFile cfg call Link.new where
  sent := fun _ _ _ _ _ ↦ List.nil_prefix
  named := fun _ _ _ hstage ↦ absurd rfl hstage
  spawned := .inl rfl
  idle := fun _ ↦ ⟨rfl, rfl⟩
  executing := fun _ _ hstage ↦ by cases hstage
  back := .inl rfl
  result := fun _ hresult ↦ by cases hresult
  outcome := fun _ _ _ _ hresult ↦ by cases hresult

/-- Before the end the call has returned nothing or given up, and there is no response. -/
theorem Inv.unavailable (h : Inv allowlistFile cfg call l) (hclosed : l.stage ≠ .closed)
    (hended : l.stage ≠ .ended) {r : Except BackendError Unit} (hresult : l.result = some r) :
    r = .error .unavailable := by
  rcases h.result r hresult with hr | hstage | hstage
  · exact hr
  · exact absurd hstage hclosed
  · exact absurd hstage hended

theorem Inv.back_eq_nil (h : Inv allowlistFile cfg call l) (hended : l.stage ≠ .ended) :
    l.back = [] := by
  rcases h.back with hback | ⟨hstage, -⟩
  · exact hback
  · exact absurd hstage hended

/-- The helper accepts the connection, or is through with it without a response. -/
theorem Inv.setStage (h : Inv allowlistFile cfg call l) (hclosed : l.stage ≠ .closed)
    (hended : l.stage ≠ .ended) {stage : Stage}
    (hstage : stage = .ended ∨ stage = .serving ∧ l.stage = .waiting) :
    Inv allowlistFile cfg call { l with stage } where
  sent := h.sent
  named := fun op name hcall _ ↦ h.named op name hcall hclosed
  spawned := h.spawned
  idle := by
    rintro hidle
    rcases hstage with rfl | ⟨rfl, hwaiting⟩
    · rcases hidle with hidle | hidle | hidle <;> cases hidle
    · exact h.idle (.inr (.inl hwaiting))
  executing := by
    rintro argv e hexecuting
    rcases hstage with rfl | ⟨rfl, -⟩ <;> cases hexecuting
  back := .inl (h.back_eq_nil hended)
  result := fun r hresult ↦ .inl (h.unavailable hclosed hended hresult)
  outcome := by
    intro op name r _ hresult
    rw [h.unavailable hclosed hended hresult]
    exact .unavailable

/-- What a call makes of the bytes that came back. -/
theorem Inv.outcome_of_answer {fromStr : List Char → Option Json} (hread : Json.ReadsBack fromStr)
    (h : Inv allowlistFile cfg call l) {op : PackageOp} {name : String}
    (hcall : call = some (op, name)) {channel : Channel} (joined : Bool)
    (hreads : channel.reads.flatten <+: l.back) :
    let r := op.run (spawnBlocking (fun bs ↦ (decode bs).bind fromStr) channel joined) name
    Outcome cfg op name l.spawned l.reaped r ∧
      (r = .error .unavailable ∨ l.stage = .closed ∨ l.stage = .ended) := by
  intro r
  unfold r PackageOp.run spawnBlocking
  split
  · rename_i hname
    have hstage : l.stage = .closed := by
      by_contra hstage
      have hsome := h.named op name hcall hstage
      rw [hname] at hsome
      cases hsome
    exact ⟨.invalid hname (h.idle (.inl hstage)).1, .inr (.inl hstage)⟩
  · rename_i pkgName hname
    cases joined with
    | false => exact ⟨.unavailable, .inl rfl⟩
    | true =>
        rcases h.back with hback | ⟨hstage, hback⟩
        · -- nothing came back, whatever the response would have been
          rw [hback] at hreads
          have hnone := fun resp hsmall ↦ @sendRequest_of_prefixed _ hread resp hsmall channel
            (hreads.trans List.nil_prefix) (op.request pkgName)
          rcases hnone .ok trivial with hsend | hok
          · simp only [if_true, hsend]
            exact ⟨.unavailable, .inl trivial⟩
          · rcases hnone .pong trivial with hsend | hpong
            · simp only [if_true, hsend]
              exact ⟨.unavailable, .inl trivial⟩
            · cases hok.symm.trans hpong
        · obtain ⟨resp, hsmall, hprefix, hanswered⟩ := hback op name pkgName hcall hname
          obtain rfl := PackageName.parse_eq_some hname
          rcases sendRequest_of_prefixed hread hsmall (hreads.trans hprefix) (op.request pkgName)
            with hsend | hsend
          · simp only [if_true, hsend]
            exact ⟨.unavailable, .inl trivial⟩
          · simp only [if_true, hsend]
            refine ⟨?_, .inr (.inr hstage)⟩
            cases hanswered with
            | refused hpermits hspawned => exact .refused hpermits hspawned
            | notStarted e hspawned => exact .notStarted e hspawned
            | ended hspawned hreaped hok =>
                cases resp with
                | ok => exact .done hspawned hreaped (hok rfl)
                | error | pong | protoVersion => exact .failed _ hspawned hreaped

/-- **The connecting end keeps the invariant.** -/
theorem PeerStep.inv {fromStr : List Char → Option Json} (hread : Json.ReadsBack fromStr)
    (hstep : PeerStep (fun bs ↦ (decode bs).bind fromStr) call l l')
    (h : Inv allowlistFile cfg call l) : Inv allowlistFile cfg call l' := by
  cases hstep with
  | connect peerUid hstage hresult hname =>
      have hidle := h.idle (.inl hstage)
      have hnotEnded : l.stage ≠ .ended := by
        rw [hstage]
        exact fun hended ↦ by cases hended
      exact {
        sent := h.sent
        named := fun op name hcall _ ↦ hname op name hcall
        spawned := .inl hidle.1
        idle := fun _ ↦ hidle
        executing := fun _ _ hexecuting ↦ by cases hexecuting
        back := .inl (h.back_eq_nil hnotEnded)
        result := fun r hr ↦ by cases hresult.symm.trans hr
        outcome := fun _ _ r _ hr ↦ by cases hresult.symm.trans hr }
  | send bs hstage hresult hframe => exact { h with sent := hframe }
  | @answer op name channel joined hcall hresult hconnected hwritten hreads =>
      obtain ⟨houtcome, hstage⟩ := h.outcome_of_answer hread hcall joined hreads
      refine { h with result := ?_, outcome := ?_ }
      · rintro r ⟨⟩
        exact hstage
      · rintro op' name' r hcall' ⟨⟩
        cases hcall.symm.trans hcall'
        exact houtcome

/-- **A response without a command.** -/
theorem Inv.respond {fromStr : List Char → Option Json} (hread : Json.ReadsBack fromStr)
    (h : Inv allowlistFile cfg call l) (hstage : l.stage = .serving) {timeoutsSet : Bool}
    {resp : PrivResponse}
    (hrespond : handleConnection (fun bs ↦ (decode bs).bind fromStr) cfg
      (l.connection timeoutsSet false) = some (.respond resp))
    {back : Bytes} (hback : back <+: frameOf (toVec resp.toJson)) :
    Inv allowlistFile cfg call { l with stage := .ended, back } := by
  have hbusy : l.stage.Busy := hstage ▸ trivial
  have hidle := h.idle (.inr (.inr hstage))
  refine { h.setStage hbusy.ne_closed hbusy.ne_ended (.inl rfl) with back := .inr ⟨rfl, ?_⟩ }
  intro op name pkgName hcall hname
  have hsmall : resp.Small := (Responds.own hrespond).small
  refine ⟨resp, hsmall, hback, ?_⟩
  rcases handleConnection_of_prefix hread (l.connection timeoutsSet false)
    (h.sent op name pkgName hcall hname) with hnone | ⟨-, hdispatch⟩
  · cases hnone.symm.trans hrespond
  · have hreply := Option.some.inj (hdispatch.symm.trans hrespond)
    rw [connection, dispatch_request] at hreply
    split at hreply
    · cases hreply
    · rename_i hpermits
      cases hreply
      exact .refused (Bool.eq_false_iff.mpr hpermits) hidle.1

/-- A command is running. -/
theorem Inv.setExecuting (h : Inv allowlistFile cfg call l) (hbusy : l.stage.Busy)
    {argv : List String} {e : Exec} {spawned : List (List String)} {spawn : Option OsError}
    (hmay : MayRun allowlistFile cfg call l.peerUid argv) (hreaped : l.reaped = [])
    (hrun : Exec.Run (Exec.start argv spawn) e)
    (hspawned : spawned = if spawn.isSome then [] else [argv]) :
    Inv allowlistFile cfg call { l with stage := .executing argv e, spawned } where
  sent := h.sent
  named := fun op name hcall _ ↦ h.named op name hcall hbusy.ne_closed
  spawned := by
    dsimp only
    rw [hspawned]
    split
    · exact .inl rfl
    · exact .inr ⟨argv, rfl, hmay⟩
  idle := by
    rintro (hidle | hidle | hidle) <;> cases hidle
  executing := by
    rintro argv' e' ⟨⟩
    exact ⟨hmay, hreaped, spawn, hrun, hspawned⟩
  back := .inl (h.back_eq_nil hbusy.ne_ended)
  result := fun r hresult ↦ .inl (h.unavailable hbusy.ne_closed hbusy.ne_ended hresult)
  outcome := by
    intro op name r _ hresult
    rw [h.unavailable hbusy.ne_closed hbusy.ne_ended hresult]
    exact .unavailable

/-- **A command is started.** -/
theorem Inv.exec {fromStr : List Char → Option Json} (hread : Json.ReadsBack fromStr)
    (hload : loadAllowlist allowlistFile = .ok cfg.allowlist)
    (h : Inv allowlistFile cfg call l) (hstage : l.stage = .serving) {timeoutsSet : Bool}
    {argv : List String}
    (hexec : handleConnection (fun bs ↦ (decode bs).bind fromStr) cfg
      (l.connection timeoutsSet false) = some (.exec argv)) (spawn : Option OsError) :
    Inv allowlistFile cfg call { l with
      stage := .executing argv (Exec.start argv spawn)
      spawned := l.spawned ++ if spawn.isSome then [] else [argv] } := by
  have hbusy : l.stage.Busy := hstage ▸ trivial
  obtain ⟨hspawned, hreaped⟩ := h.idle (.inr (.inr hstage))
  refine h.setExecuting hbusy ?_ hreaped .refl (by rw [hspawned, List.nil_append])
  obtain ⟨huid, frame, doc, req, -, -, -, hauthorized⟩ := exec_authorized _ hload hexec
  by_cases hcall : ∃ op name, call = some (op, name)
  · obtain ⟨op, name, hcall⟩ := hcall
    obtain ⟨pkgName, hname⟩ :=
      Option.isSome_iff_exists.mp (h.named op name hcall hbusy.ne_closed)
    rcases handleConnection_of_prefix hread (l.connection timeoutsSet false)
      (h.sent op name pkgName hcall hname) with hnone | ⟨-, hdispatch⟩
    · cases hnone.symm.trans hexec
    · have hreply := Option.some.inj (hdispatch.symm.trans hexec)
      refine ⟨huid, op.request pkgName, dispatch_authorized hload hreply, ?_⟩
      intro op' name' hcall'
      cases hcall.symm.trans hcall'
      exact ⟨pkgName, hname, rfl⟩
  · exact ⟨huid, req, hauthorized, fun op name hcall' ↦ absurd ⟨op, name, hcall'⟩ hcall⟩

/-- A command goes on. -/
theorem Inv.run (h : Inv allowlistFile cfg call l) {argv : List String} {e e' : Exec}
    (hstage : l.stage = .executing argv e) (hstep : Exec.Step e e') :
    Inv allowlistFile cfg call { l with stage := .executing argv e' } := by
  obtain ⟨hmay, hreaped, spawn, hrun, hspawned⟩ := h.executing argv e hstage
  exact h.setExecuting (hstage ▸ trivial) hmay hreaped (hrun.tail hstep) hspawned

/-- The command that may be run for a call. -/
theorem MayRun.argv_eq {op : PackageOp} {name : String} {pkgName : PackageName}
    {peerUid : Option Nat} {argv : List String}
    (h : MayRun allowlistFile cfg (some (op, name)) peerUid argv)
    (hname : PackageName.parse name = some pkgName) : argv = op.argv cfg.kind pkgName.text := by
  obtain ⟨-, req, hauthorized, hreq⟩ := h
  obtain ⟨pkgName', hname', rfl⟩ := hreq op name rfl
  cases hname.symm.trans hname'
  cases op with
  | install =>
      cases hauthorized with
      | install _ _ hcommand =>
          rw [hcommand.shape]
          cases cfg.kind <;> rfl
  | remove =>
      cases hauthorized with
      | remove _ _ hcommand =>
          rw [hcommand.shape]
          cases cfg.kind <;> rfl

/-- **The response after a command.** -/
theorem Inv.finish (h : Inv allowlistFile cfg call l) {argv : List String} {e : Exec}
    (hstage : l.stage = .executing argv e) {resp : PrivResponse}
    (hreturned : e.main = .returned resp) {back : Bytes}
    (hback : back <+: frameOf (toVec resp.toJson)) :
    Inv allowlistFile cfg call
      { l with stage := .ended, back, reaped := l.reaped ++ e.child.toList } := by
  have hbusy : l.stage.Busy := hstage ▸ trivial
  obtain ⟨hmay, hreaped, spawn, hrun, hspawned⟩ := h.executing argv e hstage
  refine { h.setStage hbusy.ne_closed hbusy.ne_ended (.inl rfl) with
    idle := ?_, executing := ?_, back := .inr ⟨rfl, ?_⟩, outcome := ?_ }
  · rintro (hidle | hidle | hidle) <;> cases hidle
  · rintro _ _ ⟨⟩
  · rintro op name pkgName rfl hname
    refine ⟨resp, Exec.small_of_run hrun hreturned, hback, ?_⟩
    obtain rfl := hmay.argv_eq hname
    rcases hrun.ended (op.argv_ne_nil cfg.kind pkgName.text) hreturned with
      ⟨e, rfl, rfl⟩ | ⟨rfl, status, hchild, hok⟩
    · exact .notStarted e hspawned
    · refine .ended hspawned ?_ hok
      rw [hreaped, hchild, Option.toList_some, List.nil_append]
  · intro op name r _ hresult
    rw [h.unavailable hbusy.ne_closed hbusy.ne_ended hresult]
    exact .unavailable

end Link

namespace Helper

variable {ι : Type} {calls : ι → Option (PackageOp × String)} {s s' : Helper ι}

/-- The invariant: that of every connection, the one that the helper serves, and its lock. -/
structure Inv (allowlistFile : Except IoError Bytes) (cfg : Config)
    (calls : ι → Option (PackageOp × String)) (s : Helper ι) : Prop where
  links : ∀ i, Link.Inv allowlistFile cfg (calls i) (s.links i)
  current : ∀ i, s.current = some i ↔ (s.links i).stage.Busy
  locked : s.jobLock = true → ∃ i argv e, (s.links i).stage = .executing argv e

theorem Inv.new : Inv allowlistFile cfg calls (new : Helper ι) where
  links := fun _ ↦ .new
  current := fun _ ↦ iff_of_false (fun hnone ↦ by cases hnone) id
  locked := fun h ↦ by cases h

/-- **The lock is free** when a request is dispatched: the helper is never busy. -/
theorem Inv.jobLock_eq (h : Inv allowlistFile cfg calls s) {i : ι}
    (hstage : (s.links i).stage = .serving) : s.jobLock = false := by
  by_contra hlock
  obtain ⟨j, argv, e, hexecuting⟩ := h.locked (Bool.not_eq_false _ ▸ hlock)
  have hi := (h.current i).mpr (hstage ▸ trivial)
  have hj := (h.current j).mpr (hexecuting ▸ trivial)
  cases hi.symm.trans hj
  cases hstage.symm.trans hexecuting

variable [DecidableEq ι]

theorem set_self (s : Helper ι) (i : ι) (l : Link) : s.set i l i = l := Function.update_self _ _ _

theorem set_of_ne (s : Helper ι) {i j : ι} (h : j ≠ i) (l : Link) : s.set i l j = s.links j :=
  Function.update_of_ne h _ _

/-- A step on a connection that is not one of its call leaves what calls have returned. -/
theorem set_result {i j : ι} {l : Link} {r : Except BackendError Unit}
    (hresult : (s.links j).result = some r) (h : l.result = (s.links i).result) :
    (s.set i l j).result = some r := by
  by_cases hj : j = i
  · subst hj
    rw [set_self]
    exact h.trans hresult
  · rw [set_of_ne s hj]
    exact hresult

/-- **What a call has returned stays.** -/
theorem Step.result_eq {fromSlice : Bytes → Option Json} (hstep : Step fromSlice cfg calls s s')
    {j : ι} {r : Except BackendError Unit} (hresult : (s.links j).result = some r) :
    (s'.links j).result = some r := by
  cases hstep with
  | @peer i l hpeer =>
      by_cases hj : j = i
      · subst hj
        -- a call that has returned does nothing any more
        have hnone : (s.links j).result = none := by
          cases hpeer <;> assumption
        cases hnone.symm.trans hresult
      · exact (congrArg Link.result (set_of_ne s hj l)).trans hresult
  | accept | close | respond | exec | run | finish | reset | restart =>
      exact set_result hresult rfl

theorem Inv.links_set (h : Inv allowlistFile cfg calls s) {i : ι} {l : Link}
    (hl : Link.Inv allowlistFile cfg (calls i) l) (j : ι) :
    Link.Inv allowlistFile cfg (calls j) (s.set i l j) := by
  by_cases hj : j = i
  · subst hj
    rw [set_self]
    exact hl
  · rw [set_of_ne s hj]
    exact h.links j

/-- A connection that the helper does not serve, before and after. -/
theorem Inv.quiet (h : Inv allowlistFile cfg calls s) {i : ι} {l : Link}
    (hl : Link.Inv allowlistFile cfg (calls i) l)
    (hstage : l.stage = (s.links i).stage ∨ ¬ (s.links i).stage.Busy ∧ ¬ l.stage.Busy) :
    Inv allowlistFile cfg calls { s with links := s.set i l } where
  links := h.links_set hl
  current := by
    intro j
    dsimp only
    by_cases hj : j = i
    · subst hj
      rw [set_self, h.current]
      rcases hstage with hsame | ⟨hbefore, hafter⟩
      · rw [hsame]
      · exact iff_of_false hbefore hafter
    · rw [set_of_ne s hj, h.current]
  locked := by
    intro hlock
    obtain ⟨j, argv, e, hexecuting⟩ := h.locked hlock
    refine ⟨j, argv, e, ?_⟩
    dsimp only
    by_cases hj : j = i
    · subst hj
      rw [set_self]
      rcases hstage with hsame | ⟨hbefore, -⟩
      · exact hsame.trans hexecuting
      · exact absurd (hexecuting ▸ trivial) hbefore
    · rw [set_of_ne s hj]
      exact hexecuting

/-- The helper is through with a connection. -/
theorem Inv.release (h : Inv allowlistFile cfg calls s) {i : ι} (hi : (s.links i).stage.Busy)
    {l : Link} (hl : Link.Inv allowlistFile cfg (calls i) l) (hstage : l.stage = .ended)
    {lock : Bool} (hlock : lock = false) :
    Inv allowlistFile cfg calls { links := s.set i l, current := none, jobLock := lock } where
  links := h.links_set hl
  current := by
    refine fun j ↦ iff_of_false (fun hnone ↦ by cases hnone) fun hbusy ↦ ?_
    dsimp only at hbusy
    by_cases hj : j = i
    · subst hj
      rw [set_self, hstage] at hbusy
      exact hbusy
    · rw [set_of_ne s hj] at hbusy
      exact hj (Option.some.inj (((h.current j).mpr hbusy).symm.trans ((h.current i).mpr hi)))
  locked := fun htrue ↦ by cases hlock.symm.trans htrue

/-- The helper runs a command. -/
theorem Inv.hold (h : Inv allowlistFile cfg calls s) {i : ι} (hi : (s.links i).stage.Busy)
    {l : Link} (hl : Link.Inv allowlistFile cfg (calls i) l) {argv : List String} {e : Exec}
    (hstage : l.stage = .executing argv e) (lock : Bool) :
    Inv allowlistFile cfg calls { s with links := s.set i l, jobLock := lock } where
  links := h.links_set hl
  current := by
    intro j
    dsimp only
    by_cases hj : j = i
    · subst hj
      rw [set_self, hstage, h.current]
      exact iff_of_true hi trivial
    · rw [set_of_ne s hj, h.current]
  locked := fun _ ↦ ⟨i, argv, e, (congrArg Link.stage (set_self s i l)).trans hstage⟩

/-- **Every step keeps the invariant.** -/
theorem Step.inv {fromStr : List Char → Option Json} (hread : Json.ReadsBack fromStr)
    (hload : loadAllowlist allowlistFile = .ok cfg.allowlist)
    (hstep : Step (fun bs ↦ (decode bs).bind fromStr) cfg calls s s')
    (h : Inv allowlistFile cfg calls s) : Inv allowlistFile cfg calls s' := by
  cases hstep with
  | @peer i l hpeer =>
      refine h.quiet (hpeer.inv hread (h.links i)) ?_
      cases hpeer with
      | connect _ hstage => exact .inr ⟨fun hbusy ↦ hbusy.ne_closed hstage, id⟩
      | send => exact .inl rfl
      | answer => exact .inl rfl
  | @accept i hfree hstage =>
      have hclosed : (s.links i).stage ≠ .closed := by
        rw [hstage]
        exact fun hclosed ↦ by cases hclosed
      have hended : (s.links i).stage ≠ .ended := by
        rw [hstage]
        exact fun hended ↦ by cases hended
      have hnone : ∀ j, ¬ (s.links j).stage.Busy := fun j hbusy ↦ by
        cases hfree.symm.trans ((h.current j).mpr hbusy)
      refine ⟨h.links_set ((h.links i).setStage hclosed hended (.inr ⟨rfl, hstage⟩)), ?_, ?_⟩
      · intro j
        dsimp only
        by_cases hj : j = i
        · subst hj
          rw [set_self]
          exact iff_of_true rfl trivial
        · rw [set_of_ne s hj]
          exact iff_of_false (fun heq ↦ hj (Option.some.inj heq).symm) (hnone j)
      · intro hlock
        obtain ⟨j, argv, e, hexecuting⟩ := h.locked hlock
        exact absurd (hexecuting ▸ trivial) (hnone j)
  | @close i hstage timeoutsSet hclose =>
      have hbusy : (s.links i).stage.Busy := hstage ▸ trivial
      exact h.release hbusy ((h.links i).setStage hbusy.ne_closed hbusy.ne_ended (.inl rfl)) rfl
        (h.jobLock_eq hstage)
  | @respond i resp back hstage timeoutsSet hrespond hback =>
      rw [h.jobLock_eq hstage] at hrespond
      exact h.release (hstage ▸ trivial) ((h.links i).respond hread hstage hrespond hback) rfl
        (h.jobLock_eq hstage)
  | @exec i argv hstage timeoutsSet hexec spawn =>
      rw [h.jobLock_eq hstage] at hexec
      exact h.hold (hstage ▸ trivial) ((h.links i).exec hread hload hstage hexec spawn) rfl true
  | @run i argv e e' hstage hrun =>
      exact h.hold (hstage ▸ trivial) ((h.links i).run hstage hrun) rfl s.jobLock
  | @finish i argv e resp back hstage hreturned hback =>
      exact h.release (hstage ▸ trivial) ((h.links i).finish hstage hreturned hback) rfl rfl
  | @reset i hstage =>
      have hclosed : (s.links i).stage ≠ .closed := by
        rw [hstage]
        exact fun hclosed ↦ by cases hclosed
      have hended : (s.links i).stage ≠ .ended := by
        rw [hstage]
        exact fun hended ↦ by cases hended
      refine h.quiet ((h.links i).setStage hclosed hended (.inl rfl)) (.inr ⟨?_, id⟩)
      rw [hstage]
      exact id
  | @restart i hcurrent =>
      have hbusy := (h.current i).mp hcurrent
      exact h.release hbusy ((h.links i).setStage hbusy.ne_closed hbusy.ne_ended (.inl rfl)) rfl rfl

theorem Run.inv {fromStr : List Char → Option Json} (hread : Json.ReadsBack fromStr)
    (hload : loadAllowlist allowlistFile = .ok cfg.allowlist)
    (hrun : Run (fun bs ↦ (decode bs).bind fromStr) cfg calls new s) :
    Inv allowlistFile cfg calls s := by
  induction hrun with
  | refl => exact .new
  | tail _ hstep ih => exact hstep.inv hread hload ih

/-- **Package operations from end to end.**  In every interleaving of the daemon's calls, other
processes, the helper and its restarts: one command at most is running; one at most is started for
a connection, of a process of the daemon's user, and it is authorized and that of the call; and a
call that has returned was right about it. -/
theorem package_operations {fromStr : List Char → Option Json} (hread : Json.ReadsBack fromStr)
    (hload : loadAllowlist allowlistFile = .ok cfg.allowlist)
    (hrun : Run (fun bs ↦ (decode bs).bind fromStr) cfg calls new s) :
    (∀ i j argv argv' e e', (s.links i).stage = .executing argv e →
      (s.links j).stage = .executing argv' e' → i = j) ∧
    ∀ i, ((s.links i).spawned = [] ∨ ∃ argv, (s.links i).spawned = [argv] ∧
        Link.MayRun allowlistFile cfg (calls i) (s.links i).peerUid argv) ∧
      ∀ op name r, calls i = some (op, name) → (s.links i).result = some r →
        Link.Outcome cfg op name (s.links i).spawned (s.links i).reaped r := by
  have hinv := Run.inv hread hload hrun
  refine ⟨?_, fun i ↦ ⟨(hinv.links i).spawned, (hinv.links i).outcome⟩⟩
  intro i j argv argv' e e' hi hj
  exact Option.some.inj (((hinv.current i).mpr (hi ▸ trivial)).symm.trans
    ((hinv.current j).mpr (hj ▸ trivial)))

/-- What a call has written when nothing failed. -/
theorem flatten_of_writeLengthPrefixed {max : Nat} {sizes : List Nat} {payload : Bytes}
    {pieces : List Bytes} (h : writeLengthPrefixed max sizes payload = .written pieces) :
    pieces.flatten = frameOf payload := by
  unfold writeLengthPrefixed at h
  dsimp only at h
  split at h
  · cases h
  · split at h
    · cases h
    · rename_i header sizes' hheader
      split at h
      · cases h
      · rename_i body sizes'' hbody
        cases h
        rw [List.flatten_append, flatten_of_writeAll hheader, flatten_of_writeAll hbody, frameOf]

/-- Two writes are enough for a frame. -/
theorem exists_writeLengthPrefixed {max : Nat} {payload : Bytes} (h : payload.length ≤ max) :
    ∃ pieces, writeLengthPrefixed max [4, payload.length] payload = .written pieces := by
  unfold writeLengthPrefixed
  rw [if_neg (Nat.not_lt_of_le h)]
  cases payload with
  | nil => exact ⟨_, rfl⟩
  | cons b bs => simp [toBeBytes, writeAll]

/-- A command that is over at once, and succeeds. -/
theorem exists_returned (program : String) (args : List String) :
    ∃ e, Exec.Run (Exec.start (program :: args) none) e ∧ e.main = .returned .ok := by
  have hexit : Exec.Run (Exec.start (program :: args) none) _ :=
    .single (.inr (.inr (.exit (.code 0) rfl)))
  have hpoll := hexit.tail (.inl (.pollExited rfl rfl))
  have heof := hpoll.tail (.inr (.inl (.eof rfl rfl (by
    rintro (hholds | hothers)
    · cases hholds
    · cases hothers))))
  exact ⟨_, heof.tail (.inl (.join rfl rfl)), rfl⟩

/-- Steps of a command are steps of the helper that runs it. -/
theorem Run.exec {fromSlice : Bytes → Option Json} {i : ι} {argv : List String} {e e' : Exec}
    (h : Run fromSlice cfg calls s s') (hrun : Exec.Run e e')
    (hstage : (s'.links i).stage = .executing argv e) :
    Run fromSlice cfg calls s { s' with
      links := s'.set i { s'.links i with stage := .executing argv e' } } := by
  induction hrun with
  | refl =>
      rw [← hstage, set, Function.update_eq_self]
      exact h
  | @tail e' e'' _ hstep ih =>
      have hset := set_self s' i { s'.links i with stage := .executing argv e' }
      have hnext := ih.tail (.run (i := i) (congrArg Link.stage hset) hstep)
      simp only [set, Function.update_self, Function.update_idem] at hnext
      exact hnext

/-- **A call can be done**, if its package is permitted. -/
theorem exists_done {fromStr : List Char → Option Json} (hread : Json.ReadsBack fromStr)
    (op : PackageOp) {name : PackageName} (hpermits : cfg.allowlist.permits name.text = true) :
    ∃ s : Helper Unit,
      Run (fun bs ↦ (decode bs).bind fromStr) cfg (fun _ ↦ some (op, name.text)) new s ∧
        (s.links ()).result = some (.ok ()) := by
  have hname : PackageName.parse name.text = some name := by
    rw [PackageName.parse, dif_pos name.grammar]
  have hagree := frames_agree hread
  obtain ⟨written, hwritten⟩ := exists_writeLengthPrefixed (op.request name).length_le
  have hsent := flatten_of_writeLengthPrefixed hwritten
  have hreceive := (hagree.request (op.request name) _).2 written hwritten written []
    (List.append_nil _).symm
  have hexec : handleConnection (fun bs ↦ (decode bs).bind fromStr) cfg
      ⟨some cfg.daemonUid, true, false, written.flatten⟩ =
        some (.exec (op.argv cfg.kind name.text)) := by
    rw [handleConnection_of_receiveRequest rfl rfl rfl hreceive, dispatch_request, if_pos hpermits]
  obtain ⟨program, args, hargv⟩ := List.exists_cons_of_ne_nil (op.argv_ne_nil cfg.kind name.text)
  rw [hargv] at hexec
  obtain ⟨e, hrun, hreturned⟩ := exists_returned program args
  have hresponds := Responds.exec hexec hrun hreturned
  let sizes := [4, (toVec PrivResponse.ok.toJson).length]
  obtain ⟨back, hback⟩ := exists_writeLengthPrefixed (hagree.response _ _ _ hresponds).1
  have hflatten := flatten_of_writeLengthPrefixed hback
  -- the response reaches the call
  let channel : Channel := ⟨true, true, [4, (toVec (op.request name).toJson).length], back⟩
  have hresult : op.run (spawnBlocking (fun bs ↦ (decode bs).bind fromStr) channel true) name.text =
      .ok () := by
    have hsend := ((hagree.response _ _ _ hresponds).2 sizes).2 back hback channel
      (op.request name) written [] rfl rfl hwritten (List.append_nil _).symm
    simp only [PackageOp.run, hname, spawnBlocking, if_true, hsend, responseToResult]
  let calls : Unit → Option (PackageOp × String) := fun _ ↦ some (op, name.text)
  have hconnect : Run (fun bs ↦ (decode bs).bind fromStr) cfg calls new _ :=
    .single (.peer (i := ()) (.connect (some cfg.daemonUid) rfl rfl (by
      rintro _ _ ⟨⟩
      rw [hname]
      rfl)))
  have hsend := hconnect.tail (.peer (i := ()) (.send written.flatten (by rintro ⟨⟩) rfl (by
    rintro _ _ pkgName ⟨⟩ hpkgName
    cases hname.symm.trans hpkgName
    rw [hsent]
    exact List.prefix_refl _)))
  have haccept := hsend.tail (.accept (i := ()) rfl rfl)
  have hstart := haccept.tail (.exec (i := ()) rfl true hexec none)
  have hfinish := (Run.exec (i := ()) hstart hrun rfl).tail
    (.finish (i := ()) rfl hreturned (List.prefix_refl _))
  refine ⟨_, hfinish.tail (.peer (i := ()) (.answer channel true rfl rfl ?_ ?_ ?_)), ?_⟩
  · rintro - ⟨⟩
  · rintro pkgName pieces hpkgName hpieces
    cases hname.symm.trans hpkgName
    exact hsent.trans (flatten_of_writeLengthPrefixed hpieces).symm
  · rw [hflatten]
    exact List.prefix_refl _
  · exact congrArg some hresult

/-- The daemon installs `nginx`. -/
theorem package_operations_nginx :
    ∃ s : Helper Unit, (s.links ()).result = some (.ok ()) ∧
      ∃ status : ExitStatus, status.success = true ∧ (s.links ()).reaped = [status] ∧
        (s.links ()).spawned =
          [["/usr/bin/apt-get", "install", "-y", "--no-install-recommends", "--", "nginx"]] := by
  obtain ⟨pkgName, hname⟩ := Option.isSome_iff_exists.mp
    (by decide : (PackageName.parse "nginx").isSome)
  have htext := PackageName.parse_eq_some hname
  let cfg : Config := ⟨990, .apt, .permissive⟩
  have hpermits : cfg.allowlist.permits pkgName.text = true := by
    rw [htext]
    decide
  obtain ⟨s, hrun, hresult⟩ :=
    @exists_done cfg _ Json.readsBack_parse PackageOp.install pkgName hpermits
  have hload : loadAllowlist (.error .notFound) = .ok cfg.allowlist := rfl
  have houtcome :=
    ((package_operations Json.readsBack_parse hload hrun).2 ()).2 .install _ _ rfl hresult
  rw [htext] at houtcome
  cases houtcome with
  | done hspawned hreaped hsuccess => exact ⟨s, hresult, _, hsuccess, hreaped, hspawned⟩

end Helper

end Invariant

end Vaiexia.Privd
