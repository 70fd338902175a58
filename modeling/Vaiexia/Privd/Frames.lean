import Vaiexia.Backend.Types
import Vaiexia.Lib.Stream
import Vaiexia.Privd.RunExec
import Vaiexia.Privd.Socket

/-!
# Frames between the daemon and the helper

Both ends of the socket: `send_request` of
`crates/vaiexia-server/src/backend/packages/privd_client.rs`, and `read_frame`, `write_frame` and
`write_response` of `crates/vaiexia-privd/src/socket.rs`.  A frame is a length in four bytes and a
payload; the bytes come and go in pieces of any sizes.

`frames_agree` says that the two ends understand each other: what each writes the other reads,
whatever the request and however the operation ends.
-/

namespace Vaiexia.Privd

open Vaiexia.Lib Utf8 Stream
open Vaiexia.Backend (BackendError)

/-! ## Writers and readers of the two messages -/

/-- The `Serialize` of `PrivRequest`. -/
def PrivRequest.toJson : PrivRequest → Json
  | ping => .obj [("verb", .str "ping")]
  | protoVersion => .obj [("verb", .str "proto_version")]
  | pkgInstall name => .obj [("verb", .str "pkg_install"), ("name", .str name.text)]
  | pkgRemove name => .obj [("verb", .str "pkg_remove"), ("name", .str name.text)]
  | pkgRefreshIndex => .obj [("verb", .str "pkg_refresh_index")]

/-- The `Serialize` of `PrivResponse`. -/
def PrivResponse.toJson : PrivResponse → Json
  | pong => .obj [("result", .str "pong")]
  | protoVersion version => .obj [("result", .str "proto_version"), ("version", .uint version)]
  | ok => .obj [("result", .str "ok")]
  | error message => .obj [("result", .str "error"), ("message", .str message)]

/-- A number of 32 bits. -/
def asU32 (v : Json) : Option Nat := v.asU64.bind fun n ↦ if n < 2 ^ 32 then some n else none

/-- The content of a response next to its tag, when the document is an object. -/
def PrivResponse.fromMembers (result : String) (members : List (String × Json)) :
    Option PrivResponse :=
  match result with
  | "pong" => some .pong
  | "proto_version" => (Serde.required asU32 members "version").map .protoVersion
  | "ok" => some .ok
  | "error" => (Serde.required Json.asStr members "message").map .error
  | _ => none

/-- The content of a response after its tag, when the document is an array. -/
def PrivResponse.fromElements (result : String) (elements : List Json) : Option PrivResponse :=
  match result, elements with
  | "pong", [] => some .pong
  | "proto_version", [v] => (asU32 v).map .protoVersion
  | "ok", [] => some .ok
  | "error", [v] => v.asStr.map .error
  | _, _ => none

/-- The `Deserialize` of `PrivResponse`. -/
def PrivResponse.fromJson : Json → Option PrivResponse
  | .obj members =>
      (Serde.unique members "result").bind fun v ↦
        v.asStr.bind fun result ↦ PrivResponse.fromMembers result members
  | .arr (v :: elements) => v.asStr.bind fun result ↦ PrivResponse.fromElements result elements
  | _ => none

/-- `serde_json::to_vec`. -/
def toVec (v : Json) : Bytes := encode v.render

/-! ## Frames -/

/-- What comes of reading a frame. -/
inductive FrameRead where
  | frame (payload : Bytes)
  | tooLarge
  | failed

/-- A frame of at most `max` bytes from a stream, and what was not read of it. -/
def readLengthPrefixed (max : Nat) (pieces : List Bytes) : FrameRead × List Bytes :=
  match readExact 4 pieces with
  | some ([a, b, c, d], left) =>
      if max < ofBeBytes a b c d then (.tooLarge, left)
      else
        match readExact (ofBeBytes a b c d) left with
        | some (payload, left) => (.frame payload, left)
        | none => (.failed, [])
  | _ => (.failed, [])

/-- What comes of writing a frame. -/
inductive FrameWrite where
  | written (pieces : List Bytes)
  | tooLarge
  | failed

/-- A frame of at most `max` bytes, written with writes of these sizes. -/
def writeLengthPrefixed (max : Nat) (sizes : List Nat) (payload : Bytes) : FrameWrite :=
  if max < payload.length then .tooLarge
  else
    let len := UInt32.ofNat payload.length
    match writeAll sizes (toBeBytes len) with
    | none => .failed
    | some (header, sizes) =>
        match writeAll sizes payload with
        | none => .failed
        | some (body, _) => .written (header ++ body)

/-! ## The helper -/

/-- `MAX_RESPONSE_BYTES`. -/
def maxResponseBytes : Nat := 2 ^ 20

/-- `read_frame`, of a stream that comes in pieces. -/
def readFrameIn (pieces : List Bytes) : FrameRead × List Bytes :=
  readLengthPrefixed maxRequestBytes pieces

/-- `write_frame`. -/
def writeFrame (sizes : List Nat) (payload : Bytes) : FrameWrite :=
  writeLengthPrefixed maxResponseBytes sizes payload

/-- `write_response`. -/
def writeResponse (sizes : List Nat) (resp : PrivResponse) : FrameWrite :=
  writeFrame sizes (toVec resp.toJson)

/-- The request that `handle_connection` decodes. -/
def receiveRequest (fromSlice : Bytes → Option Json) (pieces : List Bytes) : Option PrivRequest :=
  match readFrameIn pieces with
  | (.frame payload, _) => (fromSlice payload).bind PrivRequest.fromJson
  | _ => none

/-! ## The daemon -/

/-- The writing half of `send_request`. -/
def writeRequest (sizes : List Nat) (req : PrivRequest) : FrameWrite :=
  writeLengthPrefixed (2 ^ 20) sizes (toVec req.toJson)

/-- The reading half of `send_request`, and what it did not read. -/
def receiveResponse (fromSlice : Bytes → Option Json) (pieces : List Bytes) :
    Except BackendError PrivResponse × List Bytes :=
  match readLengthPrefixed (2 ^ 20) pieces with
  | (.failed, left) => (.error .unavailable, left)
  | (.tooLarge, left) => (.error (.internal "response too large"), left)
  | (.frame payload, left) =>
      match (fromSlice payload).bind PrivResponse.fromJson with
      | none => (.error (.internal "deserialize response"), left)
      | some resp => (.ok resp, left)

/-- A connection as the daemon has it: whether it was made and the timeouts were set, how many bytes
each write takes, and the pieces that come back. -/
structure Channel where
  connected : Bool
  timeoutsSet : Bool
  sizes : List Nat
  reads : List Bytes

/-- `send_request`. -/
def sendRequest (fromSlice : Bytes → Option Json) (channel : Channel) (req : PrivRequest) :
    Except BackendError PrivResponse :=
  if !channel.connected then .error .unavailable
  else if !channel.timeoutsSet then .error .unavailable
  else
    match writeRequest channel.sizes req with
    | .tooLarge => .error (.internal "request too large")
    | .failed => .error .unavailable
    | .written _ => (receiveResponse fromSlice channel.reads).1

/-! ## Frames in pieces -/

section Frames

variable {max : Nat} {pieces : List Bytes} {payload rest : Bytes}

/-- The payload after a length that is its own is the frame. -/
theorem readLengthPrefixed_eq {a b c d : UInt8} (hlen : ofBeBytes a b c d = payload.length)
    (hmax : payload.length ≤ max)
    (hpieces : pieces.flatten = a :: b :: c :: d :: (payload ++ rest)) :
    ∃ left, readLengthPrefixed max pieces = (.frame payload, left) ∧ left.flatten = rest := by
  obtain ⟨left, hread, hleft⟩ := @readExact_eq 4 pieces (by
    rw [hpieces]
    simp only [List.length_cons]
    omega)
  rw [hpieces] at hread hleft
  have hrest : left.flatten = payload ++ rest := hleft
  obtain ⟨left', hread', hleft'⟩ := @readExact_eq payload.length left (by
    rw [hrest, List.length_append]
    omega)
  rw [hrest, List.take_left] at hread'
  rw [hrest, List.drop_left] at hleft'
  refine ⟨left', ?_, hleft'⟩
  rw [readLengthPrefixed, hread]
  dsimp only [List.take]
  rw [hlen, if_neg (Nat.not_lt_of_le hmax), hread']

/-- **A length that is too large is refused** with nothing but the length read. -/
theorem readLengthPrefixed_tooLarge {a b c d : UInt8} (hlarge : max < ofBeBytes a b c d)
    (hpieces : pieces.flatten = a :: b :: c :: d :: rest) :
    ∃ left, readLengthPrefixed max pieces = (.tooLarge, left) ∧ left.flatten = rest := by
  obtain ⟨left, hread, hleft⟩ := @readExact_eq 4 pieces (by
    rw [hpieces]
    simp only [List.length_cons]
    omega)
  rw [hpieces] at hread hleft
  refine ⟨left, ?_, hleft⟩
  rw [readLengthPrefixed, hread]
  dsimp only [List.take]
  rw [if_pos hlarge]

/-- **The length that is written is that of the payload**, which is written after it. -/
theorem flatten_of_written {sizes : List Nat} (hmax : max < 2 ^ 32)
    (h : writeLengthPrefixed max sizes payload = .written pieces) :
    payload.length ≤ max ∧ ∃ a b c d, ofBeBytes a b c d = payload.length ∧
      pieces.flatten = a :: b :: c :: d :: payload := by
  unfold writeLengthPrefixed at h
  dsimp only at h
  split at h
  · cases h
  · rename_i hle
    have hpayload := Nat.le_of_not_lt hle
    refine ⟨hpayload, ?_⟩
    split at h
    · cases h
    · rename_i header sizes' hheader
      split at h
      · cases h
      · rename_i body sizes'' hbody
        cases h
        refine ⟨_, _, _, _, ofBeBytes_toBeBytes (UInt32.ofNat payload.length) |>.trans ?_, ?_⟩
        · exact UInt32.toNat_ofNat_of_lt (Nat.lt_of_le_of_lt hpayload hmax)
        · rw [List.flatten_append, flatten_of_writeAll hheader, flatten_of_writeAll hbody]
          rfl

/-- What is written is read, however it goes and comes. -/
theorem readLengthPrefixed_of_written {sizes : List Nat} {written : List Bytes} {max' : Nat}
    (hmax : max < 2 ^ 32) (hle : payload.length ≤ max')
    (hwritten : writeLengthPrefixed max sizes payload = .written written)
    (hpieces : pieces.flatten = written.flatten ++ rest) :
    ∃ left, readLengthPrefixed max' pieces = (.frame payload, left) ∧ left.flatten = rest := by
  obtain ⟨-, a, b, c, d, hlen, hflatten⟩ := flatten_of_written hmax hwritten
  rw [hflatten] at hpieces
  exact readLengthPrefixed_eq hlen hle hpieces

end Frames

/-! ## Messages -/

/-- A request reads back. -/
theorem PrivRequest.fromJson_toJson (req : PrivRequest) : fromJson req.toJson = some req := by
  cases req with
  | pkgInstall name | pkgRemove name =>
      simp [fromJson, toJson, Serde.unique, Serde.required, Json.asStr, fromMembers,
        PackageName.fromJson]
  | _ => rfl

/-- The responses of the helper: short messages, and versions of 32 bits. -/
def PrivResponse.Small : PrivResponse → Prop
  | protoVersion version => version < 2 ^ 32
  | error message => byteLen message.toList ≤ 1024
  | _ => True

/-- A response reads back. -/
theorem PrivResponse.fromJson_toJson {resp : PrivResponse} (h : resp.Small) :
    fromJson resp.toJson = some resp := by
  cases resp with
  | protoVersion version =>
      have h32 : version < 2 ^ 32 := h
      have h64 : version < 2 ^ 64 := Nat.lt_trans h32 (by decide)
      have hversion : asU32 (.uint version) = some version := by
        rw [asU32, Json.asU64, if_pos h64, Option.bind_some, if_pos h32]
      simp [fromJson, toJson, Serde.unique, Serde.required, Json.asStr, fromMembers, hversion]
  | error message =>
      simp [fromJson, toJson, Serde.unique, Serde.required, Json.asStr, fromMembers]
  | _ => rfl

/-- Both messages are documents that a reader gives back. -/
theorem PrivRequest.readable (req : PrivRequest) : req.toJson.Readable := by
  cases req <;> simp [toJson, Json.Readable, Json.ReadableIn]

theorem PrivResponse.readable {resp : PrivResponse} (h : resp.Small) : resp.toJson.Readable := by
  cases resp with
  | protoVersion version =>
      have h64 : version < 2 ^ 64 := Nat.lt_trans h (by decide)
      simpa [toJson, Json.Readable, Json.ReadableIn] using h64
  | _ => simp [toJson, Json.Readable, Json.ReadableIn]

/-- A document of two strings takes at most six times their bytes. -/
theorem length_toVec_pair (key key' value value' : String) :
    (toVec (.obj [(key, .str value), (key', .str value')])).length ≤
      6 * (byteLen key.toList + byteLen value.toList + byteLen key'.toList +
        byteLen value'.toList) + 14 := by
  have hmembers := Json.byteLen_renderObj_le [(key, .str value), (key', .str value')]
  have hbrace : ('{' : Char).utf8Size = 1 ∧ ('}' : Char).utf8Size = 1 := by decide
  have hkey := Json.byteLen_renderStr_le_mul key
  have hkey' := Json.byteLen_renderStr_le_mul key'
  have hvalue := Json.byteLen_renderStr_le_mul value
  have hvalue' := Json.byteLen_renderStr_le_mul value'
  simp only [List.map_cons, List.map_nil, List.sum_cons, List.sum_nil, Json.memberBytes_eq,
    Json.render] at hmembers
  rw [toVec, length_encode, Json.render, List.cons_append, byteLen_cons, byteLen_append,
    byteLen_cons, byteLen_nil, hbrace.1, hbrace.2]
  omega

/-- **No request is too large.** -/
theorem PrivRequest.length_le (req : PrivRequest) : (toVec req.toJson).length ≤ 2 ^ 20 := by
  have hatom : ∀ v : Json, byteLen v.render ≤ 2 ^ 20 → (toVec v).length ≤ 2 ^ 20 := by
    intro v h
    rw [toVec, length_encode]
    exact h
  cases req with
  | pkgInstall name =>
      have hname := name.grammar.byteLen_le
      have hpair := length_toVec_pair "verb" "name" "pkg_install" name.text
      have hfixed : byteLen "verb".toList + byteLen "pkg_install".toList +
          byteLen "name".toList = 19 := by decide
      exact Nat.le_trans hpair (by omega)
  | pkgRemove name =>
      have hname := name.grammar.byteLen_le
      have hpair := length_toVec_pair "verb" "name" "pkg_remove" name.text
      have hfixed : byteLen "verb".toList + byteLen "pkg_remove".toList +
          byteLen "name".toList = 18 := by decide
      exact Nat.le_trans hpair (by omega)
  | ping => exact hatom _ (by decide)
  | protoVersion => exact hatom _ (by decide)
  | pkgRefreshIndex => exact hatom _ (by decide)

/-- **No response of the helper is too large.** -/
theorem PrivResponse.length_le {resp : PrivResponse} (h : resp.Small) :
    (toVec resp.toJson).length ≤ 2 ^ 20 := by
  cases resp with
  | pong =>
      rw [toVec, length_encode]
      decide
  | ok =>
      rw [toVec, length_encode]
      decide
  | protoVersion version =>
      have h64 : version < 2 ^ 64 := Nat.lt_trans h (by decide)
      have hversion := Json.byteLen_uint_le h64
      have hmembers := Json.byteLen_renderObj_le
        [("result", .str "proto_version"), ("version", .uint version)]
      have hbrace : ('{' : Char).utf8Size = 1 ∧ ('}' : Char).utf8Size = 1 := by decide
      have hfixed : byteLen (Json.renderStr "result") + byteLen (Json.renderStr "proto_version") +
          byteLen (Json.renderStr "version") = 32 := by decide
      have hname : (Json.str "proto_version").render = Json.renderStr "proto_version" := rfl
      simp only [List.map_cons, List.map_nil, List.sum_cons, List.sum_nil, Json.memberBytes_eq,
        hname] at hmembers
      rw [toJson, toVec, length_encode, Json.render, List.cons_append, byteLen_cons, byteLen_append,
        byteLen_cons, byteLen_nil, hbrace.1, hbrace.2]
      omega
  | error message =>
      have hmessage : byteLen message.toList ≤ 1024 := h
      have hpair := length_toVec_pair "result" "message" "error" message
      have hfixed : byteLen "result".toList + byteLen "error".toList +
          byteLen "message".toList = 18 := by decide
      exact Nat.le_trans hpair (by omega)

/-! ## The responses of the helper -/

theorem byteLen_clip_le (s : List Char) : byteLen (clip s 512) ≤ 527 := by
  unfold clip
  split
  · rename_i hle
    exact Nat.le_trans hle (by decide)
  · have htake := byteLen_takeBytes_le 512 s
    have hmark : byteLen "... (truncated)".toList = 15 := by decide
    rw [byteLen_append]
    omega

theorem byteLen_toDigits_le {n k : Nat} (hn : n < 10 ^ k) (hk : 0 < k) :
    byteLen (Nat.toDigits 10 n) ≤ k := by
  rw [Json.byteLen_toDigits]
  exact (Nat.length_toDigits_le_iff (by decide) hk).mpr hn

theorem OsError.byteLen_display_le (e : OsError) : byteLen e.display ≤ 512 := by
  have hdetail := byteLen_decodeLossy_le e.detail
  have hlt := e.detail_lt
  have hcode : byteLen (Nat.toDigits 10 e.code) ≤ 10 :=
    byteLen_toDigits_le (Nat.lt_trans e.code_lt (by decide)) (by decide)
  have hfixed : byteLen " (os error ".toList = 11 ∧ byteLen ")".toList = 1 := by decide
  rw [display, byteLen_append, byteLen_append, byteLen_append, hfixed.1, hfixed.2]
  omega

theorem byteLen_signalString_le (n : Nat) : byteLen (signalString n).toList ≤ 16 := by
  unfold signalString
  split <;> decide

theorem ExitStatus.byteLen_display_le (status : ExitStatus) : byteLen status.display ≤ 64 := by
  cases status with
  | code n =>
      have hn : byteLen (Nat.toDigits 10 n.toNat) ≤ 3 :=
        byteLen_toDigits_le (Nat.lt_trans n.toNat_lt (by decide)) (by decide)
      have hfixed : byteLen "exit status: ".toList = 13 := by decide
      show byteLen ("exit status: ".toList ++ Nat.toDigits 10 n.toNat) ≤ 64
      rw [byteLen_append, hfixed]
      omega
  | signal n core =>
      have hn : byteLen (Nat.toDigits 10 n.toNat) ≤ 3 :=
        byteLen_toDigits_le (Nat.lt_trans n.toNat_lt (by decide)) (by decide)
      have hfixed : byteLen "signal: ".toList = 8 := by decide
      have hname := byteLen_signalString_le n.toNat
      have hcore : byteLen (if core then " (core dumped)" else "").toList ≤ 14 := by
        cases core <;> decide
      show byteLen ("signal: ".toList ++ Nat.toDigits 10 n.toNat ++
        (signalString n.toNat).toList ++ (if core then " (core dumped)" else "").toList) ≤ 64
      rw [byteLen_append, byteLen_append, byteLen_append, hfixed]
      omega

/-- However the operation ends, and whatever it wrote. -/
theorem ExecOutcome.small_response (kept : Bytes) (outcome : ExecOutcome) :
    (outcome.response kept).Small := by
  cases outcome with
  | exited status =>
      rw [response]
      split
      · trivial
      · have hstatus := status.byteLen_display_le
        have hclip := byteLen_clip_le (Text.trim (decodeLossy kept))
        have hfixed : byteLen "exit ".toList = 5 ∧ byteLen ": ".toList = 2 := by decide
        rw [PrivResponse.Small, String.toList_ofList, byteLen_append, byteLen_append,
          byteLen_append, hfixed.1, hfixed.2]
        omega
  | timedOut => exact (by decide : byteLen "operation timed out".toList ≤ 1024)
  | waitFailed e =>
      have hdisplay := e.byteLen_display_le
      have hfixed : byteLen "wait: ".toList = 6 := by decide
      rw [response, PrivResponse.Small, String.toList_ofList, byteLen_append, hfixed]
      omega

theorem Exec.small_of_start {argv : List String} {spawn : Option OsError} {resp : PrivResponse}
    (h : (Exec.start argv spawn).main = .returned resp) : resp.Small := by
  cases argv with
  | nil =>
      cases h
      exact (by decide : byteLen "empty argv".toList ≤ 1024)
  | cons program args =>
      cases spawn with
      | none => cases h
      | some e =>
          cases h
          have hdisplay := e.byteLen_display_le
          have hfixed : byteLen "io: ".toList = 4 := by decide
          rw [PrivResponse.Small, String.toList_ofList, byteLen_append, hfixed]
          omega

/-- **Whatever `run_exec` returns**, in any run. -/
theorem Exec.small_of_run {argv : List String} {spawn : Option OsError} {s : Exec}
    (hrun : Exec.Run (Exec.start argv spawn) s) {resp : PrivResponse}
    (hreturned : s.main = .returned resp) : resp.Small := by
  induction hrun with
  | refl => exact small_of_start hreturned
  | tail _ hstep ih =>
      rcases hstep with hstep | hstep | hstep
      · cases hstep with
        | join =>
            cases hreturned
            exact ExecOutcome.small_response _ _
        | _ => cases hreturned
      · exact ih (hstep.main_eq ▸ hreturned)
      · exact ih (hstep.main_eq ▸ hreturned)

/-- A response of the helper to a connection: its own, or that of a call of `run_exec`. -/
inductive Responds (fromSlice : Bytes → Option Json) (cfg : Config) (conn : Connection) :
    PrivResponse → Prop
  | own {resp : PrivResponse} (h : handleConnection fromSlice cfg conn = some (.respond resp)) :
      Responds fromSlice cfg conn resp
  | exec {argv : List String} {spawn : Option OsError} {s : Exec} {resp : PrivResponse}
      (h : handleConnection fromSlice cfg conn = some (.exec argv))
      (hrun : Exec.Run (Exec.start argv spawn) s) (hreturned : s.main = .returned resp) :
      Responds fromSlice cfg conn resp

/-- What `dispatch` answers without a call of `run_exec`. -/
theorem small_of_dispatch {req : PrivRequest} {kind : PackageKind} {busy : Bool}
    {allowlist : Allowlist} {resp : PrivResponse}
    (h : dispatch req kind busy allowlist = .respond resp) : resp.Small := by
  have hbusy : byteLen "busy: another operation in progress".toList ≤ 1024 := by decide
  have hrefused : byteLen "rejected: package not in allowlist".toList ≤ 1024 := by decide
  have hinvalid : byteLen "rejected: invalid request or name".toList ≤ 1024 := by decide
  cases req with
  | ping =>
      cases h
      trivial
  | protoVersion =>
      cases h
      exact (by decide : protoVersion < 2 ^ 32)
  | pkgInstall name | pkgRemove name | pkgRefreshIndex =>
      unfold dispatch at h
      dsimp only at h
      split at h
      · cases h
        exact hbusy
      · split at h
        · cases h
          exact hrefused
        · split at h
          · cases h
          · cases h
            exact hinvalid

theorem Responds.small {fromSlice : Bytes → Option Json} {cfg : Config} {conn : Connection}
    {resp : PrivResponse} (h : Responds fromSlice cfg conn resp) : resp.Small := by
  cases h with
  | exec _ hrun hreturned => exact Exec.small_of_run hrun hreturned
  | own h =>
      unfold handleConnection at h
      split at h
      · cases h
      · split at h
        · cases h
        · split at h
          · cases h
          · split at h
            · cases h
              exact (by decide : byteLen "protocol error".toList ≤ 1024)
            · exact small_of_dispatch (Option.some.inj h)

/-! ## Both ends -/

/-- The payload that was read. -/
def FrameRead.payload? : FrameRead → Option Bytes
  | frame payload => some payload
  | tooLarge | failed => none

/-- The pieces make no difference to the frame. -/
theorem payload?_readFrameIn (pieces : List Bytes) :
    (readFrameIn pieces).1.payload? = readFrame pieces.flatten := by
  have hshort : ∀ bs : Bytes, pieces.flatten = bs → bs.length < 4 →
      (readFrameIn pieces).1.payload? = none := by
    rintro bs rfl hlt
    rw [readFrameIn, readLengthPrefixed, readExact_eq_none hlt]
    rfl
  match h : pieces.flatten with
  | [] => exact hshort _ h (by decide)
  | [a] => exact hshort _ h (Nat.lt_add_of_pos_left (by decide))
  | [a, b] => exact hshort _ h (Nat.lt_add_of_pos_left (by decide))
  | [a, b, c] => exact hshort _ h (Nat.lt_add_of_pos_left (by decide))
  | a :: b :: c :: d :: rest =>
      show _ = if maxRequestBytes < ofBeBytes a b c d then none
        else if rest.length < ofBeBytes a b c d then none else some (rest.take (ofBeBytes a b c d))
      by_cases hlarge : maxRequestBytes < ofBeBytes a b c d
      · obtain ⟨left, hread, -⟩ := readLengthPrefixed_tooLarge hlarge h
        rw [if_pos hlarge, readFrameIn, hread]
        rfl
      · by_cases hless : rest.length < ofBeBytes a b c d
        · obtain ⟨left, hread, hleft⟩ := @readExact_eq 4 pieces (by
            rw [h]
            simp only [List.length_cons]
            omega)
          rw [h] at hread hleft
          have hrest : left.flatten = rest := hleft
          rw [if_neg hlarge, if_pos hless, readFrameIn, readLengthPrefixed, hread]
          dsimp only [List.take]
          rw [if_neg hlarge, readExact_eq_none (hrest ▸ hless)]
          rfl
        · have htake : (rest.take (ofBeBytes a b c d)).length = ofBeBytes a b c d := by
            rw [List.length_take]
            omega
          have hparts : pieces.flatten = a :: b :: c :: d ::
              (rest.take (ofBeBytes a b c d) ++ rest.drop (ofBeBytes a b c d)) := by
            rw [List.take_append_drop]
            exact h
          obtain ⟨left, hread, -⟩ := readLengthPrefixed_eq htake.symm
            (htake.symm ▸ Nat.le_of_not_lt hlarge) hparts
          rw [if_neg hlarge, if_neg hless, readFrameIn, hread]
          rfl

/-- A request that is received on a connection that is not refused is dispatched. -/
theorem handleConnection_of_receiveRequest {fromSlice : Bytes → Option Json} {cfg : Config}
    {conn : Connection} {pieces : List Bytes} {req : PrivRequest}
    (hpeer : conn.peerUid = some cfg.daemonUid) (hset : conn.timeoutsSet = true)
    (hsent : conn.sent = pieces.flatten) (h : receiveRequest fromSlice pieces = some req) :
    handleConnection fromSlice cfg conn = some (dispatch req cfg.kind conn.busy cfg.allowlist) := by
  have hframe := payload?_readFrameIn pieces
  unfold receiveRequest at h
  split at h
  · rename_i payload left hread
    rw [hread] at hframe
    unfold handleConnection
    rw [if_neg (not_not.mpr hpeer), hset, hsent, ← hframe]
    dsimp only [FrameRead.payload?]
    rw [h]
    rfl
  · cases h

/-- What it means that the two ends understand each other, whatever the pieces in which their bytes
go and come. -/
structure FramesAgree (fromSlice : Bytes → Option Json) : Prop where
  /-- A request is not too large, and is decoded from what is written for it. -/
  request : ∀ req sizes, writeRequest sizes req ≠ .tooLarge ∧
    ∀ written, writeRequest sizes req = .written written →
      ∀ reads rest, reads.flatten = written.flatten ++ rest →
        receiveRequest fromSlice reads = some req
  /-- A response is not too large for either side, and `send_request` decodes it from what is
  written for it. -/
  response : ∀ cfg conn resp, Responds fromSlice cfg conn resp →
    (toVec resp.toJson).length ≤ 2 ^ 20 ∧
      ∀ sizes, writeResponse sizes resp ≠ .tooLarge ∧
        ∀ written, writeResponse sizes resp = .written written →
          ∀ channel req sent rest, channel.connected = true → channel.timeoutsSet = true →
            writeRequest channel.sizes req = .written sent →
            channel.reads.flatten = written.flatten ++ rest →
            sendRequest fromSlice channel req = .ok resp
  /-- Both are written as long as every write takes something. -/
  requestWritten : ∀ req sizes, (∀ n ∈ sizes, 0 < n) →
    4 + (toVec req.toJson).length ≤ sizes.length →
      ∃ written, writeRequest sizes req = .written written
  responseWritten : ∀ cfg conn resp, Responds fromSlice cfg conn resp →
    ∀ sizes, (∀ n ∈ sizes, 0 < n) → 4 + (toVec resp.toJson).length ≤ sizes.length →
      ∃ written, writeResponse sizes resp = .written written
  /-- The length that the daemon writes is that of its payload. -/
  requestLength : ∀ sizes req written, writeRequest sizes req = .written written →
    ∃ a b c d, ofBeBytes a b c d = (toVec req.toJson).length ∧
      written.flatten = a :: b :: c :: d :: toVec req.toJson
  /-- And so is the one that the helper writes, before any payload. -/
  frameLength : ∀ sizes payload written, writeFrame sizes payload = .written written →
    ∃ a b c d, ofBeBytes a b c d = payload.length ∧
      written.flatten = a :: b :: c :: d :: payload
  /-- A frame that announces too much is refused by both, and all but its length is left unread. -/
  refused : ∀ pieces a b c d rest, pieces.flatten = a :: b :: c :: d :: rest →
    2 ^ 20 < ofBeBytes a b c d → ∃ left, left.flatten = rest ∧
      readFrameIn pieces = (.tooLarge, left) ∧
      receiveResponse fromSlice pieces = (.error (.internal "response too large"), left)

/-- What is not too large is written, if anything is. -/
theorem writeLengthPrefixed_ne_tooLarge {max : Nat} {sizes : List Nat} {payload : Bytes}
    (h : payload.length ≤ max) : writeLengthPrefixed max sizes payload ≠ .tooLarge := by
  intro hlarge
  unfold writeLengthPrefixed at hlarge
  rw [if_neg (Nat.not_lt_of_le h)] at hlarge
  dsimp only at hlarge
  split at hlarge
  · cases hlarge
  · split at hlarge <;> cases hlarge

/-- It is written if every write takes something. -/
theorem exists_written {max : Nat} {sizes : List Nat} {payload : Bytes}
    (h : payload.length ≤ max) (hpos : ∀ n ∈ sizes, 0 < n)
    (hlen : 4 + payload.length ≤ sizes.length) :
    ∃ written, writeLengthPrefixed max sizes payload = .written written := by
  have hheader : (toBeBytes (UInt32.ofNat payload.length)).length = 4 := rfl
  obtain ⟨header, sizes', hfirst, hsuffix, hmany⟩ :=
    exists_writeAll (toBeBytes (UInt32.ofNat payload.length)) hpos (by omega)
  obtain ⟨body, left, hbody, -⟩ := exists_writeAll payload
    (fun n hn ↦ hpos n (hsuffix.subset hn)) (by omega)
  refine ⟨header ++ body, ?_⟩
  unfold writeLengthPrefixed
  rw [if_neg (Nat.not_lt_of_le h)]
  simp only [hfirst, hbody]

/-- What `to_vec` wrote reads back. -/
theorem fromSlice_toVec {fromStr : List Char → Option Json} (hread : Json.ReadsBack fromStr)
    {v : Json} (hv : v.Readable) : (decode (toVec v)).bind fromStr = some v := by
  rw [toVec, decode_encode, Option.bind_some]
  exact hread v hv

/-- **The daemon and the helper understand each other**, for every reader of documents that gives
back what was written. -/
theorem frames_agree {fromStr : List Char → Option Json} (hread : Json.ReadsBack fromStr) :
    FramesAgree fun bs ↦ (decode bs).bind fromStr where
  request := by
    intro req sizes
    refine ⟨writeLengthPrefixed_ne_tooLarge req.length_le, fun written hwritten reads rest h ↦ ?_⟩
    obtain ⟨left, hframe, -⟩ := readLengthPrefixed_of_written (by decide)
      (show (toVec req.toJson).length ≤ maxRequestBytes from req.length_le) hwritten h
    rw [receiveRequest, readFrameIn, hframe]
    dsimp only
    rw [fromSlice_toVec hread req.readable, Option.bind_some, req.fromJson_toJson]
  response := by
    intro cfg conn resp hresponds
    have hsmall := hresponds.small
    have hlength := PrivResponse.length_le hsmall
    refine ⟨hlength, fun sizes ↦ ⟨writeLengthPrefixed_ne_tooLarge hlength, ?_⟩⟩
    intro written hwritten channel req sent rest hconnected hset hsent h
    obtain ⟨left, hframe, -⟩ := readLengthPrefixed_of_written (by decide) hlength hwritten h
    have hreceive : receiveResponse (fun bs ↦ (decode bs).bind fromStr) channel.reads =
        (.ok resp, left) := by
      rw [receiveResponse, hframe]
      dsimp only
      rw [fromSlice_toVec hread (PrivResponse.readable hsmall), Option.bind_some,
        PrivResponse.fromJson_toJson hsmall]
    rw [sendRequest, hconnected, hset, hsent, hreceive]
    rfl
  requestWritten := fun req _ hpos hlen ↦ exists_written req.length_le hpos hlen
  responseWritten := fun _ _ _ hresponds _ hpos hlen ↦
    exists_written (PrivResponse.length_le hresponds.small) hpos hlen
  requestLength := by
    intro sizes req written hwritten
    exact (flatten_of_written (by decide) hwritten).2
  frameLength := by
    intro sizes payload written hwritten
    exact (flatten_of_written (by decide) hwritten).2
  refused := by
    intro pieces a b c d rest hpieces hlarge
    obtain ⟨left, hframe, hleft⟩ := readLengthPrefixed_tooLarge hlarge hpieces
    refine ⟨left, hleft, hframe, ?_⟩
    rw [receiveResponse, hframe]

theorem frames_agree_parse : FramesAgree fun bs ↦ (decode bs).bind Json.parse :=
  frames_agree Json.readsBack_parse

end Vaiexia.Privd
