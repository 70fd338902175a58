import Vaiexia.Auth.Store
import Vaiexia.Auth.Token
import Vaiexia.Lib.GuardedSecret

/-!
# Bootstrap

`crates/vaiexia-server/src/auth/bootstrap.rs`: the code with which the first administrator is
claimed.  A `Session` is the state together with what a claim changes besides: the identity store
and the file `bootstrap.code`.

The clock is read up to twice in a claim, and the readings are given with the claim.  The random
codes are given too, and whether each write of the code file succeeds, and so is what hashing the
password, persisting the store and removing the file come to.

The code is a guarded secret: `Run.refines` maps a run of claims to one of
`Vaiexia/Lib/GuardedSecret.lean`, and `bootstrap_window` follows from its invariant.
-/

namespace Vaiexia.Auth

open Vaiexia.Lib

/-! ## Data -/

/-- `ADMIN_SCOPES`. -/
def adminScopes : List String :=
  ["server.read", "server.logs.read", "server.services.write", "server.packages.write",
    "auth.admin"]

/-- `MAX_ATTEMPTS`. -/
def maxAttempts : Nat := 5

/-- `DEFAULT_TTL_SECS`. -/
def defaultTtlSecs : UInt64 := 30 * 60

/-- `BootstrapError`. -/
inductive BootstrapError where
  | disabled
  | badCode
  | rateLimited
  | storeError (text : String)
  | io (text : String)
  | password (text : String)
deriving DecidableEq

/-- The `Display` of `BootstrapError`. -/
def BootstrapError.toString : BootstrapError → String
  | .disabled => "bootstrap is disabled (store already has accounts/capabilities)"
  | .badCode => "incorrect bootstrap code"
  | .rateLimited =>
      "too many failed attempts; bootstrap code regenerated — check the log for the new path"
  | .storeError text => s!"store error: {text}"
  | .io text => s!"io error: {text}"
  | .password text => s!"password error: {text}"

/-- `ClaimResult`. -/
structure ClaimResult where
  capability : String
  subjectId : String
  scopes : List String

/-- What `generate_code` makes of its 32 random bytes: base32 in lower case without padding. -/
structure BootstrapCode where
  text : String
  length_eq : text.toList.length = 52
  base32 : ∀ c ∈ text.toList, Token.isKeyIdChar c = true
deriving DecidableEq

/-- The fields of `BootstrapState::Active`. -/
structure Window where
  code : BootstrapCode
  attempts : Nat
  windowStart : UInt64
  ttlSecs : UInt64

/-- `BootstrapState`. -/
inductive BootstrapState where
  | active (window : Window)
  | disabled

/-! ## The code file -/

/-- A new code, a reading of the clock, and what the file holds if it cannot be written. -/
structure Draw where
  code : BootstrapCode
  now : UInt64
  failed : Option (Option String)

/-- `write_code`.  It truncates the file first, so that a failure may leave anything. -/
def writeCode (draw : Draw) : Option String :=
  match draw.failed with
  | none => some draw.code.text
  | some left => left

/-- `BootstrapState::begin`, on a file that holds `file`. -/
def BootstrapState.begin (storeIsEmpty : Bool) (draw : Draw) (file : Option String) :
    BootstrapState × Option String :=
  if !storeIsEmpty then (.disabled, file)
  else
    (.active { code := draw.code, attempts := 0, windowStart := draw.now,
               ttlSecs := defaultTtlSecs }, writeCode draw)

/-! ## `claim` -/

/-- `constant_time_eq`: zero-padded to the longer length. -/
def constantTimeEq (a b : Bytes) : Bool :=
  let maxLen := max a.length b.length
  a ++ List.replicate (maxLen - a.length) 0 == b ++ List.replicate (maxLen - b.length) 0

/-- `u64::saturating_sub`. -/
def saturatingSub (a b : UInt64) : UInt64 := UInt64.ofNat (a.toNat - b.toNat)

/-- The parameters of a claim. -/
structure ClaimParams where
  code : String
  adminName : String
  password : String

/-- What a claim finds outside: the clock, the codes to be drawn after expiry and at the attempt
limit, the password hash, the random bytes of the capability, and failures. -/
structure ClaimEnv where
  checkedAt : UInt64
  expired : Draw
  limited : Draw
  hashPassword : String → Except String String
  accountFault : Option StoreError
  keyIdRaw : Bytes
  secret : Bytes
  createdAt : UInt64
  capabilityFault : Option StoreError
  removed : Bool

/-- The bootstrap state, the store and the code file. -/
structure Session where
  state : BootstrapState
  store : FileStore
  codeFile : Option String

/-- What `start` makes of a store that it opened: the bootstrap begins if the store is empty. -/
def Session.begin (store : FileStore) (draw : Draw) (file : Option String) : Session where
  state := (BootstrapState.begin store.isEmpty draw file).1
  store := store
  codeFile := (BootstrapState.begin store.isEmpty draw file).2

namespace Window

/-- A new code, with a new window and no failed attempts. -/
def renew (draw : Draw) (w : Window) : Window :=
  { w with code := draw.code, attempts := 0, windowStart := draw.now }

/-- The TTL check. -/
def isExpired (env : ClaimEnv) (w : Window) : Bool :=
  w.ttlSecs ≤ saturatingSub env.checkedAt w.windowStart

/-- The code is regenerated on expiry. -/
def refresh (env : ClaimEnv) (w : Window) (file : Option String) : Window × Option String :=
  if w.isExpired env then (w.renew env.expired, writeCode env.expired) else (w, file)

/-- A wrong code counts, and the last one that counts regenerates the code. -/
def miss (env : ClaimEnv) (w : Window) (file : Option String) :
    Window × Option String × BootstrapError :=
  let attempts := w.attempts + 1
  if maxAttempts ≤ attempts then (w.renew env.limited, writeCode env.limited, .rateLimited)
  else ({ w with attempts }, file, .badCode)

end Window

/-- The account of an administrator. -/
def adminAccount (p : ClaimParams) (phc : String) : AccountRecord where
  name := p.adminName
  passwordPhc := phc
  subjectId := s!"user:{p.adminName}"
  scopes := adminScopes

/-- The capability of an administrator. -/
def adminCapability (X : TokenCrypto) (env : ClaimEnv) (p : ClaimParams) : CapabilityRecord :=
  let minted := Token.mint X env.keyIdRaw env.secret
  { keyId := minted.keyId
    secretHash := minted.secretHash
    subjectId := s!"user:{p.adminName}"
    scopes := adminScopes
    label := s!"bootstrap-{p.adminName}"
    createdAt := env.createdAt
    expiresAt := none
    revoked := false
    lastUsed := none }

namespace Session

/-- The success path of `claim`. -/
def createAdmin (X : TokenCrypto) (env : ClaimEnv) (p : ClaimParams) (s : Session) :
    Session × Except BootstrapError ClaimResult :=
  match env.hashPassword p.password with
  | .error e => (s, .error (.password e))
  | .ok phc =>
      match s.store.addAccount env.accountFault (adminAccount p phc) with
      | (store, .error e) => ({ s with store }, .error (.storeError e.toString))
      | (store, .ok _) =>
          match store.addCapability env.capabilityFault (adminCapability X env p) with
          | (store, .error e) => ({ s with store }, .error (.storeError e.toString))
          | (store, .ok _) =>
              ({ state := .disabled, store, codeFile := if env.removed then none else s.codeFile },
                .ok { capability := (Token.mint X env.keyIdRaw env.secret).capability
                      subjectId := s!"user:{p.adminName}"
                      scopes := adminScopes })

/-- `BootstrapState::claim`. -/
def claim (X : TokenCrypto) (env : ClaimEnv) (p : ClaimParams) (s : Session) :
    Session × Except BootstrapError ClaimResult :=
  match s.state with
  | .disabled => (s, .error .disabled)
  | .active w =>
      let (w, file) := w.refresh env s.codeFile
      if !constantTimeEq (Utf8.encode p.code.toList) (Utf8.encode w.code.text.toList) then
        let (w, file, e) := w.miss env file
        ({ s with state := .active w, codeFile := file }, .error e)
      else createAdmin X env p { s with state := .active w, codeFile := file }

end Session

/-! ## What a claim does -/

/-- Whether a code that was presented is right. -/
def isRight (presented : String) (code : BootstrapCode) : Bool :=
  constantTimeEq (Utf8.encode presented.toList) (Utf8.encode code.text.toList)

/-- The success path ends the bootstrap, or fails with an error of its own and keeps it open. -/
theorem Session.createAdmin_cases (X : TokenCrypto) (env : ClaimEnv) (p : ClaimParams)
    (s : Session) :
    (∃ store e, s.createAdmin X env p = ({ s with store }, .error e) ∧ e ≠ .badCode ∧
      e ≠ .rateLimited) ∨
      ∃ s' result, s.createAdmin X env p = (s', .ok result) ∧ s'.state = .disabled := by
  unfold createAdmin
  split
  · exact .inl ⟨s.store, _, rfl, nofun, nofun⟩
  · split
    · exact .inl ⟨_, _, rfl, nofun, nofun⟩
    · split
      · exact .inl ⟨_, _, rfl, nofun, nofun⟩
      · exact .inr ⟨_, _, rfl, rfl⟩

/-- With a password that can be hashed and a store that can be written, it succeeds. -/
theorem Session.createAdmin_ok (X : TokenCrypto) {env : ClaimEnv} {p : ClaimParams} (s : Session)
    {phc : String} (hhash : env.hashPassword p.password = .ok phc)
    (haccount : env.accountFault = none) (hcapability : env.capabilityFault = none) :
    ∃ s' result, s.createAdmin X env p = (s', .ok result) := by
  simp only [createAdmin, hhash, haccount, hcapability]
  exact ⟨_, _, rfl⟩

/-- Without padding the comparison is equality. -/
theorem constantTimeEq_of_length_eq {a b : Bytes} (h : a.length = b.length) :
    constantTimeEq a b = (a == b) := by
  simp [constantTimeEq, h]

theorem BootstrapCode.byteLen (code : BootstrapCode) : Utf8.byteLen code.text.toList = 52 := by
  rw [Utf8.byteLen_eq_length fun c hc ↦ Token.utf8Size_of_isKeyIdChar (code.base32 c hc),
    code.length_eq]

/-- One generated code is not taken for another. -/
theorem isRight_text {code code' : BootstrapCode} (h : isRight code.text code' = true) :
    code = code' := by
  have hlen : (Utf8.encode code.text.toList).length = (Utf8.encode code'.text.toList).length := by
    rw [Utf8.length_encode, Utf8.length_encode, code.byteLen, code'.byteLen]
  rw [isRight, constantTimeEq_of_length_eq hlen, beq_iff_eq] at h
  have htext := String.toList_injective (Utf8.encode_injective h)
  cases code
  cases code'
  simpa using htext

/-- A generated code is right for itself. -/
@[simp] theorem isRight_self (code : BootstrapCode) : isRight code.text code = true := by
  simp [isRight, constantTimeEq]

/-- A claim that presents the code of a window that is not expired succeeds, if nothing fails. -/
theorem Session.claim_ok (X : TokenCrypto) {env : ClaimEnv} {p : ClaimParams} {s : Session}
    {w : Window} (hstate : s.state = .active w) (hfresh : w.isExpired env = false)
    (hcode : p.code = w.code.text) {phc : String} (hhash : env.hashPassword p.password = .ok phc)
    (haccount : env.accountFault = none) (hcapability : env.capabilityFault = none) :
    ∃ s' result, s.claim X env p = (s', .ok result) := by
  have hright : isRight p.code w.code = true := by
    rw [hcode]
    exact isRight_self w.code
  rw [isRight] at hright
  simp only [claim, hstate, Window.refresh, hfresh, Bool.false_eq_true, if_false, hright,
    Bool.not_true]
  exact createAdmin_ok X _ hhash haccount hcapability

@[simp] theorem toNat_saturatingSub (a b : UInt64) :
    (saturatingSub a b).toNat = a.toNat - b.toNat := by
  rw [saturatingSub, UInt64.toNat_ofNat_of_lt' (lt_of_le_of_lt (Nat.sub_le _ _) a.toNat_lt)]

/-! ## Runs of claims -/

/-- What a claim lets an observer see: codes that are issued, and comparisons with them. -/
abbrev BootstrapEvent := GuardedSecret.Event String BootstrapCode UInt64

/-- What a claim returns. -/
abbrev ClaimOutcome := Except BootstrapError ClaimResult

/-- Whether a claim was turned away for its code. -/
def isRejected : ClaimOutcome → Bool
  | .error .badCode | .error .rateLimited => true
  | _ => false

/-- Whether the code of a claim was accepted.  What comes after it may still fail. -/
def isAccepted (r : ClaimOutcome) : Bool :=
  match r with
  | .error .disabled => false
  | r => !isRejected r

namespace Window

/-- The window does not depend on what the file holds. -/
theorem refresh_fst (env : ClaimEnv) (w : Window) (file file' : Option String) :
    (w.refresh env file).1 = (w.refresh env file').1 := by
  unfold refresh
  split <;> rfl

/-- The last reading of the clock before the comparison. -/
def comparedAt (env : ClaimEnv) (w : Window) : UInt64 :=
  if w.isExpired env then env.expired.now else env.checkedAt

/-- What the TTL check does. -/
def refreshEvents (env : ClaimEnv) (w : Window) : List BootstrapEvent :=
  if w.isExpired env then [.issued env.expired.code env.expired.now] else []

/-- What the comparison does. -/
def compareEvents (env : ClaimEnv) (p : ClaimParams) (t : UInt64) (w : Window) :
    List BootstrapEvent :=
  if isRight p.code w.code then [.compared p.code w.code true t]
  else if maxAttempts ≤ w.attempts + 1 then
    [.compared p.code w.code false t, .issued env.limited.code env.limited.now]
  else [.compared p.code w.code false t]

end Window

/-- What a claim does in a state. -/
def BootstrapState.claimEvents (env : ClaimEnv) (p : ClaimParams) :
    BootstrapState → List BootstrapEvent
  | .disabled => []
  | .active w =>
      w.refreshEvents env ++ (w.refresh env none).1.compareEvents env p (w.comparedAt env)

/-- A claim that was made: the state that it met, what it found outside, its parameters, and what
it returned. -/
structure Claimed where
  state : BootstrapState
  env : ClaimEnv
  params : ClaimParams
  outcome : ClaimOutcome

/-- The code that a claim is compared with, once the TTL check is done, and the last reading of the
clock before. -/
def Claimed.against (c : Claimed) : Option (BootstrapCode × UInt64) :=
  match c.state with
  | .disabled => none
  | .active w => some ((w.refresh c.env none).1.code, w.comparedAt c.env)

/-- Whether a claim was turned away by that code. -/
def Claimed.misses (code : BootstrapCode) (c : Claimed) : Bool :=
  isRejected c.outcome && c.against.any fun a ↦ a.1 = code

/-- A claim on an open bootstrap returns `BadCode` or `RateLimited` exactly if the comparison
fails. -/
theorem Session.claim_rejected_iff (X : TokenCrypto) (env : ClaimEnv) (p : ClaimParams)
    {s : Session} {w : Window} (hstate : s.state = .active w) :
    ((s.claim X env p).2 = .error .badCode ∨ (s.claim X env p).2 = .error .rateLimited) ↔
      isRight p.code (w.refresh env s.codeFile).1.code = false := by
  simp only [claim, hstate]
  split
  · rename_i hwrong
    have hwrong' : isRight p.code (w.refresh env s.codeFile).1.code = false := by
      simpa [isRight] using hwrong
    simp only [hwrong', iff_true, Window.miss]
    split
    · exact .inr rfl
    · exact .inl rfl
  · rename_i hright
    have hright' : isRight p.code (w.refresh env s.codeFile).1.code = true := by
      simpa [isRight] using hright
    rw [hright']
    rcases createAdmin_cases X env p { s with
      state := .active (w.refresh env s.codeFile).1
      codeFile := (w.refresh env s.codeFile).2 } with ⟨store, e, h, hbad, hlimited⟩ |
        ⟨s', result, h, -⟩
    · rw [h]
      simp [hbad, hlimited]
    · rw [h]
      simp

theorem isRejected_iff {r : ClaimOutcome} :
    isRejected r = true ↔ r = .error .badCode ∨ r = .error .rateLimited := by
  unfold isRejected
  split <;> simp_all

theorem isRejected_of_isAccepted {r : ClaimOutcome} (h : isAccepted r = true) :
    isRejected r = false := by
  unfold isAccepted at h
  split at h
  · cases h
  · simpa using h

/-- The result of a claim on an open bootstrap is what the comparison says. -/
theorem Session.isRejected_claim (X : TokenCrypto) (env : ClaimEnv) (p : ClaimParams) {s : Session}
    {w : Window} (hstate : s.state = .active w) :
    isRejected (s.claim X env p).2 = !isRight p.code (w.refresh env none).1.code := by
  have hrejected := claim_rejected_iff X env p hstate
  rw [← isRejected_iff, w.refresh_fst env s.codeFile none] at hrejected
  cases hright : isRight p.code (w.refresh env none).1.code with
  | false => exact hrejected.mpr hright
  | true =>
      rw [hright, Bool.true_eq_false, iff_false, Bool.not_eq_true] at hrejected
      exact hrejected

/-- A disabled bootstrap compares nothing. -/
theorem Session.claim_disabled (X : TokenCrypto) (env : ClaimEnv) (p : ClaimParams) {s : Session}
    (hstate : s.state = .disabled) : s.claim X env p = (s, .error .disabled) := by
  rw [claim, hstate]

/-- The readings of a claim come one after another, after an earlier reading.  A reading that is
not made may be any. -/
structure ClaimEnv.Follows (env : ClaimEnv) (now : UInt64) : Prop where
  checked : now ≤ env.checkedAt
  expired : env.checkedAt ≤ env.expired.now
  limited : env.expired.now ≤ env.limited.now

/-- The claim that is made in a session. -/
def Session.made (X : TokenCrypto) (env : ClaimEnv) (p : ClaimParams) (s : Session) : Claimed where
  state := s.state
  env := env
  params := p
  outcome := (s.claim X env p).2

/-- Any sequence of claims, from `begin` on, with the last reading of the clock, what an observer
saw, and the claims.  Between two claims other calls may change the store. -/
inductive ClaimRun (X : TokenCrypto) :
    Session → UInt64 → List BootstrapEvent → List Claimed → Prop
  | begin (store : FileStore) (draw : Draw) (file : Option String) :
      ClaimRun X (.begin store draw file) draw.now
        (if store.isEmpty then [.issued draw.code draw.now] else []) []
  | other {s : Session} {now : UInt64} {es : List BootstrapEvent} {cs : List Claimed}
      (h : ClaimRun X s now es cs) (store : FileStore) :
      ClaimRun X { s with store } now es cs
  | claim {s : Session} {now : UInt64} {es : List BootstrapEvent} {cs : List Claimed}
      (h : ClaimRun X s now es cs) (env : ClaimEnv) (p : ClaimParams) (hclock : env.Follows now) :
      ClaimRun X (s.claim X env p).1 env.limited.now (es ++ s.state.claimEvents env p)
        (cs ++ [s.made X env p])

/-! ### What the claims of a run were compared with -/

section Witnessed

variable {X : TokenCrypto} {env : ClaimEnv} {p : ClaimParams} {s : Session}

/-- A claim is compared at the reading of the clock that it made, and its result is what the
comparison says. -/
theorem Session.made_compared {code : BootstrapCode} {t : UInt64}
    (hagainst : (s.made X env p).against = some (code, t)) :
    .compared p.code code (!isRejected (s.claim X env p).2) t ∈ s.state.claimEvents env p ∧
      isRejected (s.claim X env p).2 = !isRight p.code code := by
  rcases hstate : s.state with w | -
  · have hmade : (s.made X env p).against
        = some ((w.refresh env none).1.code, w.comparedAt env) := by
      simp only [Claimed.against, made, hstate]
    rw [hmade] at hagainst
    obtain ⟨rfl, rfl⟩ := Prod.mk.inj (Option.some.inj hagainst)
    have hresult := isRejected_claim X env p hstate
    refine ⟨?_, hresult⟩
    rw [hresult, Bool.not_not]
    refine List.mem_append_right _ ?_
    unfold Window.compareEvents
    split
    · rename_i hright
      simp [hright]
    · rename_i hright
      split <;> simp [hright]
  · simp [Claimed.against, made, hstate] at hagainst

/-- Without a comparison it is answered `Disabled`. -/
theorem Session.made_disabled (hagainst : (s.made X env p).against = none) :
    (s.claim X env p).2 = .error .disabled := by
  rcases hstate : s.state with w | -
  · simp [Claimed.against, made, hstate] at hagainst
  · rw [claim_disabled X env p hstate]

/-- What it does counts against the code that turned it away, and against no other. -/
theorem Session.misses_claimEvents (code : BootstrapCode) :
    GuardedSecret.misses code (s.state.claimEvents env p)
      = if (s.made X env p).misses code then 1 else 0 := by
  rcases hstate : s.state with w | -
  · have hrefresh : GuardedSecret.misses code (w.refreshEvents env) = 0 := by
      unfold Window.refreshEvents
      split <;> simp
    have hmade : (s.made X env p).misses code = (!isRight p.code (w.refresh env none).1.code &&
        decide ((w.refresh env none).1.code = code)) := by
      simp only [Claimed.misses, Claimed.against, made, isRejected_claim X env p hstate, hstate,
        Option.any_some]
    rw [hmade, BootstrapState.claimEvents, GuardedSecret.misses_append, hrefresh, Nat.zero_add]
    unfold Window.compareEvents
    split
    · rename_i hright
      simp [hright]
    · rename_i hwrong
      split <;> simp [hwrong]
  · have hdisabled : isRejected (s.claim X env p).2 = false := by
      rw [claim_disabled X env p hstate]
      rfl
    simp [BootstrapState.claimEvents, Claimed.misses, made, hdisabled]

/-- The claims `cs` and what an observer saw of them. -/
structure Witnessed (es : List BootstrapEvent) (cs : List Claimed) : Prop where
  compared : ∀ c ∈ cs, ∀ code t, c.against = some (code, t) →
    .compared c.params.code code (!isRejected c.outcome) t ∈ es ∧
      isRejected c.outcome = !isRight c.params.code code
  disabled : ∀ c ∈ cs, c.against = none → c.outcome = .error .disabled
  counted : ∀ code, cs.countP (Claimed.misses code) = GuardedSecret.misses code es

/-- **The results of the claims of a run are those of the comparisons that are seen.** -/
theorem ClaimRun.witnessed {now : UInt64} {es : List BootstrapEvent} {cs : List Claimed}
    (hrun : ClaimRun X s now es cs) : Witnessed es cs := by
  induction hrun with
  | begin store draw file =>
      refine ⟨by simp, by simp, fun code ↦ ?_⟩
      split <;> simp
  | other _ store ih => exact ih
  | claim _ env p hclock ih =>
      refine ⟨?_, ?_, fun code ↦ ?_⟩
      · intro c hc code t hagainst
        rcases List.mem_append.mp hc with hc | hc
        · obtain ⟨hmem, hresult⟩ := ih.compared c hc code t hagainst
          exact ⟨List.mem_append_left _ hmem, hresult⟩
        · obtain rfl := List.mem_singleton.mp hc
          obtain ⟨hmem, hresult⟩ := Session.made_compared hagainst
          exact ⟨List.mem_append_right _ hmem, hresult⟩
      · intro c hc hagainst
        rcases List.mem_append.mp hc with hc | hc
        · exact ih.disabled c hc hagainst
        · obtain rfl := List.mem_singleton.mp hc
          exact Session.made_disabled hagainst
      · rw [List.countP_append, GuardedSecret.misses_append, ih.counted code,
          Session.misses_claimEvents, List.countP_singleton]

end Witnessed

/-! ### The guard of the code -/

/-- The guard of the bootstrap code. -/
def codePolicy : GuardedSecret.Policy String BootstrapCode UInt64 where
  isRight := isRight
  Alive since t := t.toNat < since.toNat + defaultTtlSecs.toNat
  limit := maxAttempts
  limit_pos := by decide

/-- A window as a guard. -/
def Window.guard (w : Window) : GuardedSecret.Guard BootstrapCode UInt64 where
  secret := w.code
  since := w.windowStart
  misses := w.attempts

/-- The window of an open bootstrap that has done `es`. -/
structure Window.Open (w : Window) (now : UInt64) (es : List BootstrapEvent) : Prop where
  run : GuardedSecret.Run codePolicy es w.guard
  ttl : w.ttlSecs = defaultTtlSecs
  start : w.windowStart ≤ now

namespace Window.Open

variable {w : Window} {now : UInt64} {es : List BootstrapEvent} {env : ClaimEnv} {p : ClaimParams}

/-- The TTL check issues a new code or finds the old one alive. -/
theorem refresh (h : w.Open now es) (hclock : env.Follows now) (file : Option String) :
    (w.refresh env file).1.Open (w.comparedAt env) (es ++ w.refreshEvents env) ∧
      codePolicy.Alive (w.refresh env file).1.windowStart (w.comparedAt env) := by
  unfold Window.refresh comparedAt refreshEvents
  split
  · refine ⟨⟨h.run.tail (.renew _ _), h.ttl, UInt64.le_refl _⟩, ?_⟩
    exact Nat.lt_add_of_pos_right (by decide)
  · rename_i hfresh
    refine ⟨⟨by simpa using h.run, h.ttl, UInt64.le_trans h.start hclock.checked⟩, ?_⟩
    have helapsed : ¬ defaultTtlSecs.toNat ≤ env.checkedAt.toNat - w.windowStart.toNat := by
      simpa [isExpired, UInt64.le_iff_toNat_le, h.ttl] using hfresh
    have hstart := UInt64.le_iff_toNat_le.mp (UInt64.le_trans h.start hclock.checked)
    change env.checkedAt.toNat < w.windowStart.toNat + defaultTtlSecs.toNat
    omega

/-- A right code leaves the window as it is. -/
theorem hit {t : UInt64} (h : w.Open t es) (halive : codePolicy.Alive w.windowStart t)
    (hright : isRight p.code w.code = true) : w.Open t (es ++ w.compareEvents env p t) := by
  rw [compareEvents, if_pos hright]
  exact ⟨h.run.tail (.hit hright halive), h.ttl, h.start⟩

/-- A wrong code counts, or is the last one. -/
theorem miss {t : UInt64} (h : w.Open t es) (hlimited : t ≤ env.limited.now)
    (hwrong : isRight p.code w.code = false) (file : Option String) :
    (w.miss env file).1.Open env.limited.now (es ++ w.compareEvents env p t) := by
  rw [compareEvents, if_neg (by simp [hwrong]), Window.miss]
  split
  · rename_i hle
    exact ⟨h.run.tail (.exhaust hwrong hle _ _), h.ttl, UInt64.le_refl _⟩
  · rename_i hlt
    exact ⟨h.run.tail (.miss hwrong (Nat.lt_of_not_le hlt)), h.ttl,
      UInt64.le_trans h.start hlimited⟩

end Window.Open

/-- Whether a claim returned `Ok`. -/
def Claimed.isOk (c : Claimed) : Bool := c.outcome.isOk

/-- What holds of the state after the claims `cs` that did `es`. -/
def BootstrapState.Refines (now : UInt64) (es : List BootstrapEvent) (cs : List Claimed) :
    BootstrapState → Prop
  | .active w => w.Open now es ∧ cs.countP Claimed.isOk = 0
  | .disabled => (es = [] ∨ ∃ g, GuardedSecret.Run codePolicy es g) ∧ cs.countP Claimed.isOk ≤ 1

/-- **A claim keeps it**, and whatever it returns it leaves a disabled bootstrap alone. -/
theorem Session.claim_refines (X : TokenCrypto) {env : ClaimEnv} (p : ClaimParams) {s : Session}
    {now : UInt64} {es : List BootstrapEvent} {cs : List Claimed}
    (h : s.state.Refines now es cs) (hclock : env.Follows now) :
    (s.claim X env p).1.state.Refines env.limited.now (es ++ s.state.claimEvents env p)
      (cs ++ [s.made X env p]) := by
  rcases hstate : s.state with w | -
  · rw [hstate] at h
    obtain ⟨hopen, hnone⟩ := h
    obtain ⟨hfresh, halive⟩ := hopen.refresh hclock s.codeFile
    have hwindow := w.refresh_fst env none s.codeFile
    have hlast : w.comparedAt env ≤ env.limited.now := by
      unfold Window.comparedAt
      split
      · exact hclock.limited
      · exact UInt64.le_trans hclock.expired hclock.limited
    simp only [made, claim, hstate, BootstrapState.claimEvents, hwindow, ← List.append_assoc]
    split
    · rename_i hwrong
      refine ⟨hfresh.miss hlast ?_ _, ?_⟩
      · simpa [isRight] using hwrong
      · simp [hnone, Claimed.isOk, Except.isOk, Except.toBool]
    · rename_i hright
      have hhit : Window.Open _ _ (_ ++ Window.compareEvents env p _ _) :=
        hfresh.hit halive (by simpa [isRight] using hright)
      rcases createAdmin_cases X env p { s with
        state := .active (w.refresh env s.codeFile).1
        codeFile := (w.refresh env s.codeFile).2 } with ⟨store, e, h, -⟩ | ⟨s', result, h, hs'⟩
      · rw [h]
        refine ⟨⟨hhit.run, hhit.ttl, UInt64.le_trans hhit.start hlast⟩, ?_⟩
        simp [hnone, Claimed.isOk, Except.isOk, Except.toBool]
      · rw [h]
        dsimp only
        rw [hs']
        refine ⟨.inr ⟨_, hhit.run⟩, ?_⟩
        simp [hnone, Claimed.isOk, Except.isOk, Except.toBool]
  · rw [hstate] at h
    simp only [made, claim, hstate, BootstrapState.claimEvents, List.append_nil]
    refine ⟨h.1, ?_⟩
    simpa [Claimed.isOk, Except.isOk, Except.toBool] using h.2

/-- **Every run of claims is a run of the guard of the code.** -/
theorem ClaimRun.refines {X : TokenCrypto} {s : Session} {now : UInt64} {es : List BootstrapEvent}
    {cs : List Claimed} (hrun : ClaimRun X s now es cs) : s.state.Refines now es cs := by
  induction hrun with
  | begin store draw file =>
      unfold Session.begin BootstrapState.begin
      cases store.isEmpty with
      | true => exact ⟨⟨.start draw.code draw.now, rfl, UInt64.le_refl _⟩, rfl⟩
      | false => exact ⟨.inl rfl, Nat.zero_le 1⟩
  | other _ store ih => exact ih
  | claim _ env p hclock ih => exact Session.claim_refines X p ih hclock

/-- After a claim that succeeded the bootstrap is disabled. -/
theorem BootstrapState.Refines.disabled {now : UInt64} {es : List BootstrapEvent}
    {cs : List Claimed} {state : BootstrapState} (h : state.Refines now es cs) {c : Claimed}
    (hc : c ∈ cs) (hok : c.isOk = true) : state = .disabled := by
  cases state with
  | active w => exact absurd hok (List.countP_eq_zero.mp h.2 c hc)
  | disabled => rfl

/-- What was seen is what a guard does. -/
theorem BootstrapState.Refines.guarded {now : UInt64} {es : List BootstrapEvent}
    {cs : List Claimed} {state : BootstrapState} (h : state.Refines now es cs) :
    es = [] ∨ ∃ g, GuardedSecret.Run codePolicy es g := by
  cases state with
  | active w => exact .inr ⟨_, h.1.run⟩
  | disabled => exact h.1

/-- A right guess comes within 1800 seconds of the issue of every code that it is right for. -/
theorem BootstrapState.Refines.alive {now : UInt64} {es : List BootstrapEvent} {cs : List Claimed}
    {state : BootstrapState} (h : state.Refines now es cs)
    (hdistinct : (GuardedSecret.secrets es).Nodup) {presented : String} {code : BootstrapCode}
    {t : UInt64} (hmem : .compared presented code true t ∈ es) {code' : BootstrapCode}
    {since : UInt64} (hissued : .issued code' since ∈ es)
    (hcode : code' = code ∨ code'.text = presented) : t.toNat < since.toNat + 1800 := by
  rcases h.guarded with rfl | ⟨g, hg⟩
  · cases hmem
  · obtain ⟨hright, since', hissued', halive⟩ := (hg.inv hdistinct).right presented code t hmem
    obtain rfl : code' = code := by
      rcases hcode with hcode | htext
      · exact hcode
      · rw [← htext] at hright
        exact isRight_text hright
    obtain rfl := GuardedSecret.issued_unique hdistinct hissued hissued'
    exact halive

/-- **Bootstrap window safety.**  In every run of claims from `begin` on, with whatever store
failures, in which no code is generated twice:

* every active state has fewer than five failed attempts, and its code was generated when its
  window started;
* every claim is answered `Disabled` or is compared, once, with the code that is current then: it
  returns `BadCode` or `RateLimited` exactly if the comparison fails;
* no code turns more than five claims away;
* no claim has its code accepted 1800 seconds after the code was generated or later, neither the
  code that is stored nor the one that is presented;
* at most one claim succeeds;
* and once one has, every claim is answered `Disabled` and changes nothing. -/
theorem bootstrap_window {X : TokenCrypto} {s : Session} {now : UInt64}
    {es : List BootstrapEvent} {cs : List Claimed} (hrun : ClaimRun X s now es cs)
    (hdistinct : (GuardedSecret.secrets es).Nodup) :
    (∀ w, s.state = .active w → w.attempts < 5 ∧ .issued w.code w.windowStart ∈ es) ∧
    (∀ c ∈ cs, (c.against = none ∧ c.outcome = .error .disabled) ∨
      ∃ code t, c.against = some (code, t) ∧
        .compared c.params.code code (!isRejected c.outcome) t ∈ es ∧
        isRejected c.outcome = !isRight c.params.code code) ∧
    (∀ code, cs.countP (Claimed.misses code) = GuardedSecret.misses code es ∧
      GuardedSecret.misses code es ≤ 5) ∧
    (∀ c ∈ cs, isAccepted c.outcome = true → ∃ code t, c.against = some (code, t) ∧
      ∀ code' since, .issued code' since ∈ es → code' = code ∨ code'.text = c.params.code →
        t.toNat < since.toNat + 1800) ∧
    cs.countP Claimed.isOk ≤ 1 ∧
    (∀ c ∈ cs, c.isOk = true → ∀ env p, s.claim X env p = (s, .error .disabled)) := by
  have hrefines := hrun.refines
  have hwitnessed := hrun.witnessed
  refine ⟨?_, ?_, ?_, ?_, ?_, ?_⟩
  · intro w hw
    rw [hw] at hrefines
    have hinv := hrefines.1.run.inv hdistinct
    exact ⟨hinv.below, hinv.issued⟩
  · intro c hc
    rcases hagainst : c.against with - | ⟨code, t⟩
    · exact .inl ⟨rfl, hwitnessed.disabled c hc hagainst⟩
    · exact .inr ⟨code, t, rfl, hwitnessed.compared c hc code t hagainst⟩
  · intro code
    refine ⟨hwitnessed.counted code, ?_⟩
    rcases hrefines.guarded with rfl | ⟨g, hg⟩
    · exact Nat.zero_le 5
    · exact (hg.inv hdistinct).bounded code
  · intro c hc haccepted
    rcases hagainst : c.against with - | ⟨code, t⟩
    · rw [hwitnessed.disabled c hc hagainst] at haccepted
      cases haccepted
    · obtain ⟨hmem, -⟩ := hwitnessed.compared c hc code t hagainst
      rw [isRejected_of_isAccepted haccepted] at hmem
      exact ⟨code, t, rfl, fun code' since hissued hcode ↦
        hrefines.alive hdistinct hmem hissued hcode⟩
  · rcases hstate : s.state with w | -
    · rw [hstate] at hrefines
      rw [hrefines.2]
      exact Nat.zero_le 1
    · rw [hstate] at hrefines
      exact hrefines.2
  · intro c hc hok env p
    exact Session.claim_disabled X env p (hrefines.disabled hc hok)

/-! ### The first claim -/

/-- The code of 32 zero bytes. -/
def zeroCode : BootstrapCode where
  text := String.ofList (List.replicate 52 'a')
  length_eq := by rw [String.toList_ofList, List.length_replicate]
  base32 := by
    intro c hc
    rw [String.toList_ofList] at hc
    rw [List.eq_of_mem_replicate hc]
    rfl

/-- The code, drawn at some time and written. -/
def zeroDraw (now : UInt64) : Draw where
  code := zeroCode
  now := now
  failed := none

/-- A store without a file. -/
def emptyStore : FileStore where
  file := none
  snap := .default
  pendingTouch := ∅

/-- A bootstrap that was just opened. -/
def openSession : Session := .begin emptyStore (zeroDraw 1700000000) none

/-- A claim a minute later that meets no failure. -/
def minuteLater : ClaimEnv where
  checkedAt := 1700000060
  expired := zeroDraw 1700000060
  limited := zeroDraw 1700000060
  hashPassword _ := .ok "$argon2id$v=19$m=65536,t=3,p=1$AAAAAAAAAAAAAAAAAAAAAA$AAAA"
  accountFault := none
  keyIdRaw := List.replicate 10 0
  secret := List.replicate 32 0
  createdAt := 1700000060
  capabilityFault := none
  removed := true

/-- The claim of `admin` with that code. -/
def firstClaim : ClaimParams where
  code := zeroCode.text
  adminName := "admin"
  password := "hunter2"

theorem firstClaim_ok :
    ∃ s' result, openSession.claim Token.sampleCrypto minuteLater firstClaim = (s', .ok result) :=
  Session.claim_ok Token.sampleCrypto rfl (by decide) rfl rfl rfl rfl

/-- The first claim succeeds, and nobody can claim after it. -/
theorem bootstrap_window_firstClaim :
    (∃ result, (openSession.claim Token.sampleCrypto minuteLater firstClaim).2 = .ok result) ∧
    ∀ env p, (openSession.claim Token.sampleCrypto minuteLater firstClaim).1.claim
      Token.sampleCrypto env p
        = ((openSession.claim Token.sampleCrypto minuteLater firstClaim).1, .error .disabled) := by
  obtain ⟨s', result, hok⟩ := firstClaim_ok
  have hrun := ClaimRun.claim (.begin (X := Token.sampleCrypto) emptyStore (zeroDraw 1700000000)
    none) minuteLater firstClaim ⟨by decide, by decide, by decide⟩
  refine ⟨⟨result, congrArg Prod.snd hok⟩,
    (bootstrap_window hrun ?_).2.2.2.2.2 _ (List.mem_singleton_self _) ?_⟩
  · decide +kernel
  · change (openSession.claim Token.sampleCrypto minuteLater firstClaim).2.isOk = true
    rw [hok]
    rfl

end Vaiexia.Auth
