import Vaiexia.Lib.JsonParse
import Vaiexia.Privd.Allowlist

/-!
# What the privileged helper executes

The argument vectors of `crates/vaiexia-privd/src/exec.rs` and the way of a frame through
`socket.rs`: peer check, frame decoding, deserialization, `dispatch`.  Running a command is left
to the operating system: a connection ends with a `Reply`, which is either a response of the
helper's own or the vector it handed to `run_exec`.

The boundary is `exec_authorized`: a vector that reaches `run_exec` is `Authorized`, whatever the
peer sent and whatever the operator wrote.
-/

namespace Vaiexia.Privd

open Vaiexia.Lib

/-! ## Argument vectors -/

/-- `PackageKind`. -/
inductive PackageKind where
  | apt | dnf | pacman | apk
deriving DecidableEq, Repr

/-- `install_argv`. -/
def installArgv (kind : PackageKind) (name : String) : List String :=
  match kind with
  | .apt => ["/usr/bin/apt-get", "install", "-y", "--no-install-recommends", "--", name]
  | .dnf => ["/usr/bin/dnf", "install", "-y", "--", name]
  | .pacman => ["/usr/bin/pacman", "-S", "--noconfirm", "--", name]
  | .apk => ["/sbin/apk", "add", "--", name]

/-- `remove_argv`. -/
def removeArgv (kind : PackageKind) (name : String) : List String :=
  match kind with
  | .apt => ["/usr/bin/apt-get", "remove", "-y", "--", name]
  | .dnf => ["/usr/bin/dnf", "remove", "-y", "--", name]
  | .pacman => ["/usr/bin/pacman", "-R", "--noconfirm", "--", name]
  | .apk => ["/sbin/apk", "del", "--", name]

/-- `refresh_argv`. -/
def refreshArgv : PackageKind → List String
  | .apt => ["/usr/bin/apt-get", "update", "-y"]
  | .dnf => ["/usr/bin/dnf", "check-update"]
  | .pacman => ["/usr/bin/pacman", "-Sy"]
  | .apk => ["/sbin/apk", "update"]

/-- `verb_to_argv`. -/
def verbToArgv (req : PrivRequest) (kind : PackageKind) : Option (List String) :=
  match req with
  | .ping | .protoVersion => none
  | .pkgInstall name =>
      if (PackageName.parse name.text).isNone then none else some (installArgv kind name.text)
  | .pkgRemove name =>
      if (PackageName.parse name.text).isNone then none else some (removeArgv kind name.text)
  | .pkgRefreshIndex => some (refreshArgv kind)

/-! ## Dispatch -/

/-- How a request ends: with a response, or with a call of `run_exec`. -/
inductive Reply where
  | respond (resp : PrivResponse)
  | exec (argv : List String)
deriving DecidableEq

/-- `handle`. -/
def handle : PrivRequest → PrivResponse
  | .ping => .pong
  | .protoVersion => .protoVersion protoVersion
  | .pkgInstall _ | .pkgRemove _ | .pkgRefreshIndex =>
      .error "package operations not implemented in this build"

/-- `dispatch`.  `busy` says that `job_lock` is held. -/
def dispatch (req : PrivRequest) (kind : PackageKind) (busy : Bool) (allowlist : Allowlist) :
    Reply :=
  match req with
  | .ping | .protoVersion => .respond (handle req)
  | .pkgInstall _ | .pkgRemove _ | .pkgRefreshIndex =>
      if busy then .respond (.error "busy: another operation in progress")
      else
        let refused :=
          match req with
          | .pkgInstall name | .pkgRemove name => !allowlist.permits name.text
          | _ => false
        if refused then .respond (.error "rejected: package not in allowlist")
        else
          match verbToArgv req kind with
          | some argv => .exec argv
          | none => .respond (.error "rejected: invalid request or name")

/-- What is executed is the vector of the request, and its package is permitted. -/
theorem dispatch_exec {req : PrivRequest} {kind : PackageKind} {busy : Bool} {al : Allowlist}
    {argv : List String} (h : dispatch req kind busy al = .exec argv) :
    verbToArgv req kind = some argv ∧
      ∀ name, req = .pkgInstall name ∨ req = .pkgRemove name → al.permits name.text = true := by
  have hfree : busy = false := by
    cases busy with
    | true => cases req <;> cases h
    | false => rfl
  subst hfree
  cases req with
  | ping => cases h
  | protoVersion => cases h
  | pkgRefreshIndex => exact ⟨by simpa [dispatch, verbToArgv] using h, by simp⟩
  | pkgInstall name | pkgRemove name =>
      rcases hpermits : al.permits name.text with _ | _
      · simp [dispatch, hpermits] at h
      · simp only [dispatch, hpermits, Bool.not_true, Bool.false_eq_true, if_false] at h
        refine ⟨?_, by simp [hpermits]⟩
        split at h
        · rename_i hargv
          obtain rfl := Reply.exec.inj h
          exact hargv
        · cases h

/-! ## Connections -/

/-- `MAX_REQUEST_BYTES`. -/
def maxRequestBytes : Nat := 1024 * 1024

/-- `read_frame`: a length in four bytes, the most significant first, and that many bytes. -/
def readFrame : Bytes → Option Bytes
  | a :: b :: c :: d :: rest =>
      let len := ((a.toNat * 256 + b.toNat) * 256 + c.toNat) * 256 + d.toNat
      if maxRequestBytes < len then none
      else if rest.length < len then none
      else some (rest.take len)
  | _ => none

/-- What the helper is started with. -/
structure Config where
  daemonUid : Nat
  kind : PackageKind
  allowlist : Allowlist

/-- What a connection brings: the peer's uid if the socket tells it, whether the timeouts could
be set, whether another operation is running, and the bytes the peer sends. -/
structure Connection where
  peerUid : Option Nat
  timeoutsSet : Bool
  busy : Bool
  sent : Bytes

/-- `handle_connection`, up to the writing of the response; `none` when the connection is closed
without one.  `fromSlice` reads a JSON document. -/
def handleConnection (fromSlice : Bytes → Option Json) (cfg : Config) (conn : Connection) :
    Option Reply :=
  if conn.peerUid ≠ some cfg.daemonUid then none
  else if !conn.timeoutsSet then none
  else
    match readFrame conn.sent with
    | none => none
    | some frame =>
        match (fromSlice frame).bind PrivRequest.fromJson with
        | none => some (.respond (.error "protocol error"))
        | some req => some (dispatch req cfg.kind conn.busy cfg.allowlist)

/-! ## The boundary -/

/-- The fixed part of an install command. -/
def installTemplate : PackageKind → List String
  | .apt => ["/usr/bin/apt-get", "install", "-y", "--no-install-recommends"]
  | .dnf => ["/usr/bin/dnf", "install", "-y"]
  | .pacman => ["/usr/bin/pacman", "-S", "--noconfirm"]
  | .apk => ["/sbin/apk", "add"]

/-- The fixed part of a remove command. -/
def removeTemplate : PackageKind → List String
  | .apt => ["/usr/bin/apt-get", "remove", "-y"]
  | .dnf => ["/usr/bin/dnf", "remove", "-y"]
  | .pacman => ["/usr/bin/pacman", "-R", "--noconfirm"]
  | .apk => ["/sbin/apk", "del"]

/-- The name is one the operator allows: a line of the allowlist file, trimmed, when there is
such a file. -/
def Listed (allowlistFile : Except IoError Bytes) (name : String) : Prop :=
  ∀ file, allowlistFile = .ok file → ∃ body, Utf8.decode file = some body ∧
    ∃ raw ∈ Text.lines body, String.ofList (Text.trim raw) = name

/-- A command on one package: a fixed template, the only separator of options, and an allowed
package name. -/
structure PackageCommand (allowlistFile : Except IoError Bytes) (template : List String)
    (name : String) (argv : List String) : Prop where
  shape : argv = template ++ ["--", name]
  one_separator : argv.count "--" = 1
  grammar : PackageGrammar name.toList
  listed : Listed allowlistFile name

/-- What the helper may execute for a request. -/
inductive Authorized (allowlistFile : Except IoError Bytes) (kind : PackageKind) :
    PrivRequest → List String → Prop where
  | refresh : Authorized allowlistFile kind .pkgRefreshIndex (refreshArgv kind)
  | install (name : PackageName) (argv : List String)
      (h : PackageCommand allowlistFile (installTemplate kind) name.text argv) :
      Authorized allowlistFile kind (.pkgInstall name) argv
  | remove (name : PackageName) (argv : List String)
      (h : PackageCommand allowlistFile (removeTemplate kind) name.text argv) :
      Authorized allowlistFile kind (.pkgRemove name) argv

/-- A template without a separator and an allowed name make a package command. -/
theorem packageCommand_of_permits {allowlistFile : Except IoError Bytes} {al : Allowlist}
    (hload : loadAllowlist allowlistFile = .ok al) {name : PackageName}
    (hpermits : al.permits name.text = true) {template : List String} (hsep : "--" ∉ template) :
    PackageCommand allowlistFile template name.text (template ++ ["--", name.text]) where
  shape := rfl
  one_separator := by
    have hname : ¬ name.text = "--" := name.text_ne_separator
    rw [List.count_append, List.count_eq_zero_of_not_mem hsep]
    simp [hname]
  grammar := name.grammar
  listed := by
    rintro file rfl
    exact mem_loadAllowlist hload hpermits

/-- **Dispatch**: a vector that is executed is authorized. -/
theorem dispatch_authorized {allowlistFile : Except IoError Bytes} {al : Allowlist}
    (hload : loadAllowlist allowlistFile = .ok al) {req : PrivRequest} {kind : PackageKind}
    {busy : Bool} {argv : List String} (h : dispatch req kind busy al = .exec argv) :
    Authorized allowlistFile kind req argv := by
  obtain ⟨hargv, hpermits⟩ := dispatch_exec h
  cases req with
  | ping => cases hargv
  | protoVersion => cases hargv
  | pkgInstall name =>
      obtain rfl : installArgv kind name.text = argv := by simpa [verbToArgv] using hargv
      refine .install name _ ?_
      cases kind <;> exact packageCommand_of_permits hload (hpermits name (.inl rfl)) (by decide)
  | pkgRemove name =>
      obtain rfl : removeArgv kind name.text = argv := by simpa [verbToArgv] using hargv
      refine .remove name _ ?_
      cases kind <;> exact packageCommand_of_permits hload (hpermits name (.inr rfl)) (by decide)
  | pkgRefreshIndex =>
      obtain rfl := Option.some.inj hargv
      exact .refresh

/-- **The privilege boundary.**  Whatever the allowlist file holds, and whatever a peer sends: a
vector that reaches `run_exec` is authorized for the request that the frame of this peer, the
daemon, holds; for every other frame nothing is executed. -/
theorem exec_authorized (fromSlice : Bytes → Option Json)
    {allowlistFile : Except IoError Bytes} {cfg : Config}
    (hload : loadAllowlist allowlistFile = .ok cfg.allowlist) {conn : Connection}
    {argv : List String} (h : handleConnection fromSlice cfg conn = some (.exec argv)) :
    conn.peerUid = some cfg.daemonUid ∧
      ∃ frame doc req, readFrame conn.sent = some frame ∧ fromSlice frame = some doc ∧
        PrivRequest.fromJson doc = some req ∧ Authorized allowlistFile cfg.kind req argv := by
  unfold handleConnection at h
  split at h
  · cases h
  · rename_i huid
    split at h
    · cases h
    · split at h
      · cases h
      · rename_i frame hframe
        split at h
        · cases h
        · rename_i req hreq
          obtain ⟨doc, hdoc, hfrom⟩ := Option.bind_eq_some_iff.mp hreq
          exact ⟨not_not.mp huid, frame, doc, req, hframe, hdoc, hfrom,
            dispatch_authorized hload (Option.some.inj h)⟩

/-- A request to install `nginx`. -/
def nginxRequest : Json := .obj [("verb", .str "pkg_install"), ("name", .str "nginx")]

/-- The connection that brings it. -/
def nginxConnection : Connection where
  peerUid := some 990
  timeoutsSet := true
  busy := false
  sent := [0, 0, 0, 37] ++ Utf8.encode nginxRequest.render

theorem exec_authorized_nginx :
    nginxConnection.peerUid = some 990 ∧
      ∃ frame doc req, readFrame nginxConnection.sent = some frame ∧
        (Utf8.decode frame).bind Json.parse = some doc ∧ PrivRequest.fromJson doc = some req ∧
        Authorized (.ok (Utf8.encode "# web\n nginx \n".toList)) .apt req
          ["/usr/bin/apt-get", "install", "-y", "--no-install-recommends", "--", "nginx"] := by
  have hload : loadAllowlist (.ok (Utf8.encode "# web\n nginx \n".toList))
      = .ok (.restricted ["nginx"]) := by
    simp only [loadAllowlist, Utf8.decode_encode]
    decide
  have hframe : readFrame nginxConnection.sent = some (Utf8.encode nginxRequest.render) := by
    have hlen : (Utf8.encode nginxRequest.render).length = 37 := by
      rw [Utf8.length_encode]
      decide
    have htake : (Utf8.encode nginxRequest.render).take 37 = Utf8.encode nginxRequest.render :=
      List.take_of_length_le (Nat.le_of_eq hlen)
    change (if maxRequestBytes < 37 then none
      else if (Utf8.encode nginxRequest.render).length < 37 then none
      else some ((Utf8.encode nginxRequest.render).take 37)) = _
    rw [if_neg (by decide), if_neg (by omega), htake]
  have hdoc : (Utf8.decode (Utf8.encode nginxRequest.render)).bind Json.parse
      = some nginxRequest := by
    rw [Utf8.decode_encode, Option.bind_some]
    exact Json.readsBack_parse nginxRequest (by
      intro m hm
      simp only [List.mem_cons, List.not_mem_nil, or_false] at hm
      rcases hm with rfl | rfl <;> trivial)
  refine @exec_authorized (fun frame ↦ (Utf8.decode frame).bind Json.parse) _
    ⟨990, .apt, .restricted ["nginx"]⟩ hload nginxConnection _ ?_
  simp only [handleConnection, hframe, hdoc]
  decide

end Vaiexia.Privd
