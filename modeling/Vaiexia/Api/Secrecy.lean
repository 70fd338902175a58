import Vaiexia.Api.Serve
import Vaiexia.Auth.Redact
import Vaiexia.Lib.Unwinding

/-!
# What the audit trail tells of secrets

The events of the verifier and of the handlers depend on a secret only through what comparing it
comes to.  Two runs are compared whose calls, and whose worlds in the beginning, are the same with
the secrets redacted: the secrets of tokens, minted and presented, the passwords and their hashes,
and the codes of the bootstrap.  `Call.unwinding` is about one call, and `trail_eq` about runs.
-/

namespace Vaiexia.Api

open Vaiexia.Lib Vaiexia.Audit Vaiexia.Auth Vaiexia.Backend

/-! ## What is redacted -/

/-- A login without the password. -/
def LoginParams.redact (p : LoginParams) : LoginParams := { p with password := "" }

/-- The same request, but for passwords and codes. -/
inductive Request.Alike : Request → Request → Prop where
  | same (r : Request) : Request.Alike r r
  | login {p p' : LoginParams} (h : p.redact = p'.redact) : Request.Alike (.login p) (.login p')
  | bootstrapClaim {p p' : ClaimParams} (h : p.redact = p'.redact) :
      Request.Alike (.bootstrapClaim p) (.bootstrapClaim p')

/-- What a request finds, without the secrets to be drawn and the verification of passwords. -/
def Env.redact (env : Env) : Env :=
  { env with
    bytes := { env.bytes with secret := [] }
    claim := env.claim.redact
    verifyPassword := fun _ _ ↦ .ok false }

/-- A world without secrets. -/
def World.redact (w : World) : World := { w with session := w.session.redact }

/-- What is left is the same, and so are the events, and an error is. -/
structure SameTrail {α β ρ : Type} (f : α → β) (a a' : α × List AuditEvent × Except Diagnostic ρ) :
    Prop where
  state : f a.1 = f a'.1
  events : a.2.1 = a'.2.1
  result : (a.2.2.map fun _ ↦ ()) = a'.2.2.map fun _ ↦ ()

/-- What a handler makes of it. -/
theorem SameTrail.map {α β γ δ ρ σ : Type} {f : α → β} {f' : γ → δ}
    {a a' : α × List AuditEvent × Except Diagnostic ρ} (h : SameTrail f a a') {k k' : α → γ}
    (hk : ∀ t t', f t = f t' → f' (k t) = f' (k' t')) (g : ρ → σ) :
    SameTrail f' (k a.1, a.2.1, a.2.2.map g) (k' a'.1, a'.2.1, a'.2.2.map g) := by
  obtain ⟨t, events, d | resp⟩ := a <;> obtain ⟨t', events', d' | resp'⟩ := a' <;>
    obtain ⟨ht, hevents, hresult⟩ := h
  · exact ⟨hk t t' ht, hevents, hresult⟩
  · cases hresult
  · cases hresult
  · exact ⟨hk t t' ht, hevents, rfl⟩

/-! ## Events of the caller -/

section Events

variable {X : TokenCrypto} {core : ScopeSets} {s s' : IdentitySnapshot} {st st' : FileStore}
  {cap cap' : Option String}

/-- An event names the same caller. -/
theorem subjectEvent_redact (now : UInt64) (subject : Subject core) (hs : s.redact = s'.redact) :
    subjectEvent now s subject = subjectEvent now s' subject := by
  funext kind decision
  unfold subjectEvent subjectLabel
  rw [ownerSubjectId_redact subject hs]

theorem guard_redact (reg : Registered) (now : UInt64) (subject : Subject core)
    (hs : s.redact = s'.redact) : reg.guard core now s subject = reg.guard core now s' subject := by
  unfold Registered.guard scopedEvent
  rw [subjectEvent_redact now subject hs]

variable (X core) in
/-- A request that is dispatched is refused in both worlds, or enters the handler as one subject. -/
theorem dispatch_redact (clock : Clock) (guardNow : UInt64) (reg : Registered)
    (hcap : Token.Alike X cap cap') (hst : st.redact = st'.redact)
    (hverdict : verifyVerdict X cap reg.method st.snap = verifyVerdict X cap' reg.method st'.snap) :
    Prod.map FileStore.redact id (dispatch X core clock guardNow cap reg st) =
      Prod.map FileStore.redact id (dispatch X core clock guardNow cap' reg st') := by
  obtain ⟨t, t', r, hverify, hverify', ht⟩ :=
    exists_of_map_eq (verify_redact X core clock hcap hst hverdict)
  unfold dispatch
  rw [hverify, hverify']
  rcases r with ⟨events, e | subject⟩
  · exact Prod.ext ht rfl
  · dsimp only
    rw [guard_redact reg guardNow subject (congrArg FileStore.snap ht)]
    rcases reg.guard core guardNow t'.snap subject with ⟨more, e | ⟨⟩⟩
    · exact Prod.ext ht rfl
    · exact Prod.ext ht rfl

theorem runServiceMutation_redact (be : SystemBackend) (clock : EventClock) (elapsed : Bool)
    (subject : Subject core) (verb : ServiceVerb) (name : String) (hs : s.redact = s'.redact) :
    runServiceMutation be clock elapsed s subject verb name =
      runServiceMutation be clock elapsed s' subject verb name := by
  unfold runServiceMutation
  rw [subjectEvent_redact clock.now subject hs]

/-- The job that a request spawns is the same, too. -/
theorem runPackageMutation_redact (be : SystemBackend) (clock : EventClock) (id : String)
    {t t' : IdentitySnapshot} (subject : Subject core) (verb : PackageVerb) (name : String)
    (inner : RegistryInner) (ht : t.redact = t'.redact) (hs : s.redact = s'.redact) :
    runPackageMutation be clock id t s subject verb name inner =
      runPackageMutation be clock id t' s' subject verb name inner := by
  unfold runPackageMutation subjectLabel
  rw [subjectEvent_redact clock.now subject hs, ownerSubjectId_redact subject ht]

end Events

/-! ## The handlers of the auth module -/

section Handlers

variable {X : TokenCrypto} {core : ScopeSets} {s s' : IdentitySnapshot} {st st' : FileStore}
  {bytes bytes' : TokenBytes}

variable (X) in
/-- The record that `login` adds, but for the hash. -/
theorem loginRecord_redact (now : Readings) {p p' : LoginParams} {acc acc' : AccountRecord}
    (hbytes : bytes.keyId = bytes'.keyId) (hp : p.redact = p'.redact)
    (hacc : acc.redact = acc'.redact) :
    (loginRecord X now bytes p acc).redact = (loginRecord X now bytes' p' acc').redact := by
  obtain ⟨hname, -, hrequested, httl⟩ := LoginParams.mk.inj hp
  obtain ⟨-, -, hsubject, hscopes⟩ := AccountRecord.mk.inj hacc
  unfold loginRecord CapabilityRecord.redact Token.mint effectiveScopes
  dsimp only
  rw [hbytes, hsubject, hscopes, hrequested, hname, httl]

variable (X) in
/-- **`login`** tells of the password what verifying it comes to. -/
theorem login_redact {verifyPassword verifyPassword' : String → String → Except String Bool}
    (checked : Except Nat Unit) (now : Readings) (fault : Option StoreError) {p p' : LoginParams}
    (hbytes : bytes.keyId = bytes'.keyId) (hp : p.redact = p'.redact) (hs : s.redact = s'.redact)
    (hst : st.redact = st'.redact)
    (hverdict : checked = .ok () → (s.lookupAccount p.name).map (fun acc ↦
        verifyPassword p.password acc.passwordPhc) =
      (s'.lookupAccount p'.name).map fun acc ↦ verifyPassword' p'.password acc.passwordPhc) :
    SameTrail FileStore.redact (login X verifyPassword checked now bytes fault p s st)
      (login X verifyPassword' checked now bytes' fault p' s' st') := by
  obtain ⟨hname, -⟩ := LoginParams.mk.inj hp
  unfold login
  cases checked with
  | error retryAfterSecs => exact ⟨hst, rfl, rfl⟩
  | ok =>
      dsimp only
      have hverified := hverdict rfl
      rw [← hname] at hverified ⊢
      rcases IdentitySnapshot.account_cases hs p.name with ⟨hk, hk'⟩ | ⟨acc, acc', hk, hk', hacc⟩
      · rw [hk, hk']
        exact ⟨hst, rfl, rfl⟩
      · rw [hk, hk'] at hverified
        have hsame : verifyPassword p.password acc.passwordPhc =
            verifyPassword' p'.password acc'.passwordPhc := Option.some.inj hverified
        rw [hk, hk']
        dsimp only
        rw [← hsame]
        rcases verifyPassword p.password acc.passwordPhc with e | right
        · exact ⟨hst, rfl, rfl⟩
        · cases right with
          | false => exact ⟨hst, rfl, rfl⟩
          | true =>
              obtain ⟨t, t', r, hadd, hadd', ht⟩ := exists_of_map_eq
                (FileStore.redact_addCapability fault hst
                  (loginRecord_redact X now hbytes hp hacc))
              dsimp only
              rw [hadd, hadd']
              cases r with
              | error e => exact ⟨ht, rfl, rfl⟩
              | ok n =>
                  have hsubject : acc.redact.subjectId = acc'.redact.subjectId := by rw [hacc]
                  change acc.subjectId = acc'.subjectId at hsubject
                  refine ⟨ht, ?_, rfl⟩
                  dsimp only [Token.mint]
                  rw [hbytes, hsubject]

variable (X) in
/-- `token_create` tells of the new token its key id. -/
theorem tokenCreate_redact (debugStrings : List String → String) (now : Readings)
    (fault : Option StoreError) (p : TokenCreateParams) (subject : Subject core)
    (hbytes : bytes.keyId = bytes'.keyId) (hs : s.redact = s'.redact)
    (hst : st.redact = st'.redact) :
    SameTrail FileStore.redact (tokenCreate X debugStrings now bytes fault p subject s st)
      (tokenCreate X debugStrings now bytes' fault p subject s' st') := by
  have howner : resolveOwnerSubjectId subject s = resolveOwnerSubjectId subject s' :=
    ownerSubjectId_redact subject hs
  have hrecord : ∀ owner, (tokenCreateRecord X now bytes p owner).redact =
      (tokenCreateRecord X now bytes' p owner).redact := by
    intro owner
    unfold tokenCreateRecord CapabilityRecord.redact Token.mint
    dsimp only
    rw [hbytes]
  unfold tokenCreate
  by_cases hempty : p.scopes.isEmpty
  · rw [if_pos hempty, if_pos hempty]
    exact ⟨hst, rfl, rfl⟩
  · rw [if_neg hempty, if_neg hempty]
    cases p.scopes.find? fun scope ↦ !core.contains subject.scopes scope with
    | some missing => exact ⟨hst, rfl, rfl⟩
    | none =>
        dsimp only
        obtain ⟨t, t', r, hadd, hadd', ht⟩ := exists_of_map_eq
          (FileStore.redact_addCapability fault hst (hrecord (resolveOwnerSubjectId subject s)))
        rw [← howner, hadd, hadd']
        cases r with
        | error e => exact ⟨ht, rfl, rfl⟩
        | ok n =>
            refine ⟨ht, ?_, rfl⟩
            dsimp only [Token.mint]
            rw [hbytes]

/-- `token_revoke` reads nothing secret. -/
theorem tokenRevoke_redact (now latencyUs : UInt64) (fault : Option StoreError) (k : String)
    (subject : Subject core) (hs : s.redact = s'.redact) (hst : st.redact = st'.redact) :
    SameTrail FileStore.redact (tokenRevoke now latencyUs fault k subject s st)
      (tokenRevoke now latencyUs fault k subject s' st') := by
  have howner : resolveOwnerSubjectId subject s = resolveOwnerSubjectId subject s' :=
    ownerSubjectId_redact subject hs
  obtain ⟨t, t', r, hrevoke, hrevoke', ht⟩ :=
    exists_of_map_eq (FileStore.redact_revokeCapability fault k hst)
  unfold tokenRevoke
  rw [← howner, hrevoke, hrevoke']
  cases r with
  | error e => exact ⟨ht, rfl, rfl⟩
  | ok n => exact ⟨ht, rfl, rfl⟩

variable (X) in
/-- **`bootstrap_claim`** tells of the code and the password what comparing the one and hashing the
other come to. -/
theorem bootstrapClaim_redact (debugStrings : List String → String) (now : UInt64)
    {env env' : ClaimEnv} {p p' : ClaimParams} {session session' : Session}
    (henv : env.redact = env'.redact) (hp : p.redact = p'.redact)
    (hsession : session.redact = session'.redact)
    (hverdict : session.claimVerdict env p = session'.claimVerdict env' p') :
    SameTrail Session.redact (bootstrapClaim X debugStrings now env p session)
      (bootstrapClaim X debugStrings now env' p' session') := by
  have hclaim := Session.claim_redact X henv hp hsession hverdict
  obtain ⟨-, hname, -⟩ := ClaimParams.mk.inj hp
  unfold bootstrapClaim
  revert hclaim
  rcases session.claim X env p with ⟨t, e | result⟩ <;>
    rcases session'.claim X env' p' with ⟨t', e' | result'⟩ <;> intro hclaim <;>
    obtain ⟨ht, hresult⟩ := Prod.mk.inj hclaim
  · obtain rfl := Except.error.inj hresult
    exact ⟨ht, rfl, rfl⟩
  · cases hresult
  · cases hresult
  · obtain ⟨-, hsubject, hscopes⟩ := ClaimResult.mk.inj (Except.ok.inj hresult)
    refine ⟨ht, ?_, rfl⟩
    dsimp only
    rw [hsubject, hscopes, hname]

end Handlers

/-! ## Verdicts -/

/-- What the comparisons of a call come to, as far as it makes them: of the secret of a token, of a
password, and of the code of the bootstrap, after which the new password is hashed. -/
@[ext] structure Verdict where
  secret : Option Bool
  password : Option (Except String Bool)
  claim : Option (Option (Except String Unit))
deriving DecidableEq

/-- What `login` finds when it verifies the password. -/
def passwordVerdict (env : Env) (p : LoginParams) (w : World) : Option (Except String Bool) :=
  match (env.limiter.check env.limiterNow p.name w.buckets).2 with
  | .error _ => none
  | .ok () =>
      (w.store.snap.lookupAccount p.name).map fun acc ↦
        env.verifyPassword p.password acc.passwordPhc

/-- What the handler of a request finds. -/
def Request.verdict (env : Env) (w : World) : Request → Verdict
  | .login p => ⟨none, passwordVerdict env p w, none⟩
  | .bootstrapClaim p => ⟨none, none, w.session.claimVerdict env.claim p⟩
  | _ => ⟨none, none, none⟩

/-- No handler sees a token. -/
theorem Request.verdict_secret (env : Env) (w : World) (r : Request) :
    (r.verdict env w).secret = none := by
  cases r <;> rfl

/-! ## A request -/

section Requests

variable {X : TokenCrypto} {core : ScopeSets} {env env' : Env} {w w' : World} {r r' : Request}
  {cap cap' : Option String}

theorem redact_setStore {st st' : FileStore} (hw : w.redact = w'.redact)
    (hst : st.redact = st'.redact) : (w.setStore st).redact = (w'.setStore st').redact := by
  obtain ⟨hsession, hbuckets, hjobs⟩ := World.mk.inj hw
  obtain ⟨hstate, -, -⟩ := Session.mk.inj hsession
  show World.mk ⟨w.session.state.redact, st.redact, none⟩ w.buckets w.jobs =
    World.mk ⟨w'.session.state.redact, st'.redact, none⟩ w'.buckets w'.jobs
  rw [hstate, hst, hbuckets, hjobs]

/-- The stores of two worlds. -/
theorem redact_store (hw : w.redact = w'.redact) : w.store.redact = w'.store.redact :=
  congrArg (fun w ↦ w.session.store) hw

variable (X) in
/-- Both limiters let the name in, or none. -/
theorem loginLimited_redact {p p' : LoginParams} (henv : env.redact = env'.redact)
    (hp : p.redact = p'.redact) (hw : w.redact = w'.redact)
    (hverdict : passwordVerdict env p w = passwordVerdict env' p' w') :
    SameTrail World.redact (loginLimited X env p w) (loginLimited X env' p' w') := by
  obtain ⟨-, -, -, hreadings, hbytes, hfault, -, hnow, -, -, -, hlimiter, -, -⟩ := Env.mk.inj henv
  obtain ⟨hname, -⟩ := LoginParams.mk.inj hp
  obtain ⟨hsession, hbuckets, hjobs⟩ := World.mk.inj hw
  have hcheck : env.limiter.check env.limiterNow p.name w.buckets =
      env'.limiter.check env'.limiterNow p'.name w'.buckets := by
    rw [hlimiter, hnow, hname, hbuckets]
  unfold loginLimited
  unfold passwordVerdict at hverdict
  rw [← hcheck] at hverdict ⊢
  revert hverdict
  rcases env.limiter.check env.limiterNow p.name w.buckets with ⟨buckets, checked⟩
  intro hverdict
  have hverified : checked.mapError RateLimited.retryAfterSecs = .ok () →
      (w.store.snap.lookupAccount p.name).map (fun acc ↦
          env.verifyPassword p.password acc.passwordPhc) =
        (w'.store.snap.lookupAccount p'.name).map fun acc ↦
          env'.verifyPassword p'.password acc.passwordPhc := by
    intro hok
    cases checked with
    | error limited => cases hok
    | ok => exact hverdict
  have hkept : ∀ {t t' : FileStore} (buckets : HashMap String Bucket), t.redact = t'.redact →
      (World.setStore t { w with buckets := buckets }).redact =
        (World.setStore t' { w' with buckets := buckets }).redact := by
    intro t t' buckets ht
    refine redact_setStore ?_ ht
    show World.mk w.session.redact buckets w.jobs = World.mk w'.session.redact buckets w'.jobs
    rw [hsession, hjobs]
  have hstore := redact_store hw
  have hlogin := login_redact X _ env.readings env.fault (TokenBytes.mk.inj hbytes).1 hp
    (congrArg FileStore.snap hstore) hstore hverified
  dsimp only
  rw [← hreadings, ← hfault, ← hname]
  revert hlogin
  rcases login X env.verifyPassword _ _ _ _ p _ _ with ⟨t, events, d | resp⟩ <;>
    rcases login X env'.verifyPassword _ _ _ _ p' _ _ with ⟨t', events', d' | resp'⟩ <;>
    rintro ⟨ht, hevents, hresult⟩
  · exact ⟨hkept buckets ht, hevents, hresult⟩
  · cases hresult
  · cases hresult
  · exact ⟨hkept (RateLimiter.reset p.name buckets) ht, hevents, rfl⟩

variable (X) in
/-- **A handler's events** tell of the secrets of its request what its comparisons come to. -/
theorem handle_redact (subject : Subject core)
    {resolved reported resolved' reported' : IdentitySnapshot} (henv : env.redact = env'.redact)
    (hr : r.Alike r') (hw : w.redact = w'.redact) (hresolved : resolved.redact = resolved'.redact)
    (hreported : reported.redact = reported'.redact)
    (hverdict : r.verdict env w = r'.verdict env' w') :
    SameTrail World.redact (handle X env subject resolved reported w r)
      (handle X env' subject resolved' reported' w' r') := by
  obtain ⟨-, -, hevent, hreadings, hbytes, hfault, hclaim, -, helapsed, hjobId, hbackend, -, -,
    hdebug⟩ := Env.mk.inj henv
  obtain ⟨hsession, hbuckets, hjobs⟩ := World.mk.inj hw
  have hlogin : ∀ {p p' : LoginParams}, p.redact = p'.redact →
      passwordVerdict env p w = passwordVerdict env' p' w' →
      SameTrail World.redact (handle X env subject resolved reported w (.login p))
        (handle X env' subject resolved' reported' w' (.login p')) := by
    intro p p' hp hpassword
    have hlimited := loginLimited_redact X henv hp hw hpassword
    exact hlimited.map (fun _ _ ht ↦ ht) Response.loggedIn
  have hbootstrap : ∀ {p p' : ClaimParams}, p.redact = p'.redact →
      w.session.claimVerdict env.claim p = w'.session.claimVerdict env'.claim p' →
      SameTrail World.redact (handle X env subject resolved reported w (.bootstrapClaim p))
        (handle X env' subject resolved' reported' w' (.bootstrapClaim p')) := by
    intro p p' hp hcode
    have hclaimed := bootstrapClaim_redact X env.debugStrings env.event.now hclaim hp hsession hcode
    unfold handle
    rw [← hevent, ← hdebug]
    have hworld : ∀ t t' : Session, t.redact = t'.redact →
        World.redact { w with session := t } = World.redact { w' with session := t' } := by
      intro t t' ht
      show World.mk t.redact w.buckets w.jobs = World.mk t'.redact w'.buckets w'.jobs
      rw [ht, hbuckets, hjobs]
    exact hclaimed.map hworld Response.claimed
  cases hr with
  | login hp => exact hlogin hp (Verdict.mk.inj hverdict).2.1
  | bootstrapClaim hp => exact hbootstrap hp (Verdict.mk.inj hverdict).2.2
  | same r =>
      have hstored : ∀ t t' : FileStore, t.redact = t'.redact →
          (w.setStore t).redact = (w'.setStore t').redact := fun _ _ ht ↦ redact_setStore hw ht
      cases r with
      | login p => exact hlogin rfl (Verdict.mk.inj hverdict).2.1
      | bootstrapClaim p => exact hbootstrap rfl (Verdict.mk.inj hverdict).2.2
      | hostInfo | servicesList | servicesStatus | packagesList | logsQuery =>
          unfold handle
          rw [← hbackend]
          exact ⟨hw, rfl, rfl⟩
      | jobsStatus jobId =>
          unfold handle
          rw [← hjobs]
          exact ⟨hw, rfl, rfl⟩
      | whoami | tokenList => exact ⟨hw, rfl, rfl⟩
      | serviceMutation verb name =>
          unfold handle
          rw [← hbackend, ← hevent, ← helapsed]
          dsimp only
          rw [runServiceMutation_redact _ _ _ subject verb name hreported]
          exact ⟨hw, rfl, rfl⟩
      | packageMutation verb name =>
          unfold handle
          rw [← hbackend, ← hevent, ← hjobId, ← hjobs]
          dsimp only
          rw [runPackageMutation_redact _ _ _ subject verb name _ hresolved hreported]
          refine ⟨?_, rfl, rfl⟩
          show World.mk w.session.redact w.buckets _ = World.mk w'.session.redact w'.buckets _
          rw [hsession, hbuckets]
      | tokenCreate p =>
          have hcreated := tokenCreate_redact X env.debugStrings env.readings env.fault p subject
            (TokenBytes.mk.inj hbytes).1 hresolved (redact_store hw)
          unfold handle
          rw [← hdebug, ← hreadings, ← hfault]
          exact hcreated.map hstored Response.created
      | tokenRevoke keyId =>
          have hrevoked := tokenRevoke_redact env.event.now env.event.latencyUs env.fault keyId
            subject hreported (redact_store hw)
          unfold handle
          rw [← hevent, ← hfault]
          exact hrevoked.map hstored fun _ ↦ Response.revoked

/-- What a handler finds in the store for its last event. -/
theorem quietReport_redact (henv : env.redact = env'.redact) (hr : r.Alike r')
    (hw : w.redact = w'.redact) :
    (quietReport env w r).redact = (quietReport env' w' r').redact := by
  have hsnap : w.store.snap.redact = w'.store.snap.redact :=
    congrArg FileStore.snap (redact_store hw)
  cases hr with
  | login hp => exact hsnap
  | bootstrapClaim hp => exact hsnap
  | same r =>
      cases r with
      | tokenRevoke keyId =>
          obtain ⟨-, -, -, -, -, hfault, -⟩ := Env.mk.inj henv
          obtain ⟨t, t', result, hrevoke, hrevoke', ht⟩ :=
            exists_of_map_eq (FileStore.redact_revokeCapability env.fault keyId (redact_store hw))
          show (w.store.revokeCapability env.fault keyId).1.snap.redact =
            (w'.store.revokeCapability env'.fault keyId).1.snap.redact
          rw [← hfault, hrevoke, hrevoke']
          exact congrArg FileStore.snap ht
      | _ => exact hsnap

/-- The job that a handler leaves running. -/
def spawned {core : ScopeSets} (env : Env) (subject : Subject core)
    (resolved reported : IdentitySnapshot) (w : World) : Request → Option PackageJob
  | .packageMutation verb name =>
      (runPackageMutation env.backend env.event env.jobId resolved reported subject verb name
        w.jobs).2.1
  | _ => none

theorem spawned_redact (subject : Subject core)
    {resolved reported resolved' reported' : IdentitySnapshot} (henv : env.redact = env'.redact)
    (hr : r.Alike r') (hw : w.redact = w'.redact) (hresolved : resolved.redact = resolved'.redact)
    (hreported : reported.redact = reported'.redact) :
    spawned env subject resolved reported w r = spawned env' subject resolved' reported' w' r' := by
  obtain ⟨-, -, hevent, -, -, -, -, -, -, hjobId, hbackend, -⟩ := Env.mk.inj henv
  obtain ⟨-, -, hjobs⟩ := World.mk.inj hw
  cases hr with
  | login hp => rfl
  | bootstrapClaim hp => rfl
  | same r =>
      cases r with
      | packageMutation verb name =>
          show (runPackageMutation env.backend env.event env.jobId resolved reported subject verb
              name w.jobs).2.1 = (runPackageMutation env'.backend env'.event env'.jobId resolved'
                reported' subject verb name w'.jobs).2.1
          rw [← hbackend, ← hevent, ← hjobId, ← hjobs,
            runPackageMutation_redact _ _ _ subject verb name _ hresolved hreported]
      | _ => rfl

/-- The job that a request leaves running. -/
def serveSpawned (X : TokenCrypto) (core : ScopeSets) (env : Env) (cap : Option String)
    (r : Request) (w : World) : Option PackageJob :=
  match service.find? fun reg ↦ reg.method == r.method with
  | none => none
  | some reg =>
      match dispatch X core env.clock env.guardNow cap reg w.store with
      | (_, _, .error _) => none
      | (st, _, .ok subject) =>
          let w := w.setStore st
          spawned env subject w.store.snap (quietReport env w r) w r

theorem Request.Alike.method_eq (hr : r.Alike r') : r.method = r'.method := by
  cases hr <;> rfl

/-- The comparisons of a handler do not depend on what dispatching it leaves in the store. -/
theorem verdict_setStore {st : FileStore} (hst : st.snap = w.store.snap) (r : Request) :
    r.verdict env (w.setStore st) = r.verdict env w := by
  cases r with
  | login p =>
      show Verdict.mk none (passwordVerdict env p (w.setStore st)) none = _
      unfold passwordVerdict
      rw [show (w.setStore st).store.snap = w.store.snap from hst]
      rfl
  | _ => rfl

variable (X core) in
/-- **The events of a request** tell of its secrets what its comparisons come to, and so does the
job that it spawns. -/
theorem serve_redact (henv : env.redact = env'.redact) (hcap : Token.Alike X cap cap')
    (hr : r.Alike r') (hw : w.redact = w'.redact)
    (hsecret : verifyVerdict X cap r.method w.store.snap =
      verifyVerdict X cap' r'.method w'.store.snap)
    (hverdict : r.verdict env w = r'.verdict env' w') :
    (serve X core env cap r w).1.redact = (serve X core env' cap' r' w').1.redact ∧
      (serve X core env cap r w).2.1 = (serve X core env' cap' r' w').2.1 ∧
      serveSpawned X core env cap r w = serveSpawned X core env' cap' r' w' := by
  obtain ⟨reg, -, hmethod, hfind⟩ := exists_registered r
  obtain ⟨hclock, hguardNow, -⟩ := Env.mk.inj henv
  have hfind' : (service.find? fun reg ↦ reg.method == r'.method) = some reg := by
    rw [← hr.method_eq]
    exact hfind
  rw [← hr.method_eq, ← hmethod] at hsecret
  have hdispatch := dispatch_redact X core env.clock env.guardNow reg hcap (redact_store hw) hsecret
  have hsnap := dispatch_snap X core env.clock env.guardNow cap reg w.store
  have hsnap' := dispatch_snap X core env.clock env.guardNow cap' reg w'.store
  obtain ⟨t, t', ⟨events, result⟩, hd, hd', ht⟩ := exists_of_map_eq hdispatch
  rw [hd] at hsnap
  rw [hd'] at hsnap'
  have hset := redact_setStore hw ht
  unfold serve serveSpawned
  rw [hfind, hfind']
  dsimp only
  rw [← hclock, ← hguardNow, hd, hd']
  cases result with
  | error d => exact ⟨hset, rfl, rfl⟩
  | ok subject =>
      have hresolved : (w.setStore t).store.snap.redact = (w'.setStore t').store.snap.redact :=
        congrArg FileStore.snap (redact_store hset)
      have hreported := quietReport_redact henv hr hset
      have hhandle := handle_redact X subject henv hr hset hresolved hreported
        (by rw [verdict_setStore hsnap, verdict_setStore hsnap', hverdict])
      refine ⟨hhandle.state, ?_, spawned_redact subject henv hr hset hresolved hreported⟩
      exact congrArg (events ++ ·) hhandle.events

end Requests

/-! ## Runs -/

/-- A world, with the package jobs that were spawned in it. -/
structure Scene where
  world : World
  jobs : List PackageJob

/-- A scene without secrets. -/
def Scene.redact (s : Scene) : Scene := { s with world := s.world.redact }

/-- A call: of the verifier, for a method or a subscription; of the handler of a request, for some
subject; of both, when the request is served; or the end of a job that was spawned. -/
inductive Call (core : ScopeSets) where
  | verify (clock : Clock) (cap : Option String) (method : String)
  | subscribe (clock : Clock) (cap : Option String) (topic : String)
  | handle (env : Env) (subject : Subject core) (r : Request)
  | serve (env : Env) (cap : Option String) (r : Request)
  | finish (i : Nat) (mgr : PackageManager) (event : EventClock) (id : String)

namespace Call

variable (X : TokenCrypto) {core : ScopeSets}

/-- What a call leaves, and its events. -/
def step : Call core → Scene → Scene × List AuditEvent
  | verify clock cap method, s =>
      let (st, events, _) := Auth.verify X core clock cap method s.world.store
      ({ s with world := s.world.setStore st }, events)
  | subscribe clock cap topic, s =>
      let (st, events, _) := Api.subscribe X core clock cap topic s.world.store
      ({ s with world := s.world.setStore st }, events)
  | handle env subject r, s =>
      let resolved := s.world.store.snap
      let reported := quietReport env s.world r
      let (world, events, _) := Api.handle X env subject resolved reported s.world r
      let job := spawned env subject resolved reported s.world r
      ({ world, jobs := s.jobs ++ job.toList }, events)
  | serve env cap r, s =>
      let (world, events, _) := Api.serve X core env cap r s.world
      ({ world, jobs := s.jobs ++ (serveSpawned X core env cap r s.world).toList }, events)
  | finish i mgr event id, s =>
      match s.jobs[i]? with
      | none => (s, [])
      | some job =>
          let (ev, result) := job.run mgr event
          let jobs := s.world.jobs.storeTerminal (terminalStatus id result)
          ({ s with world := { s.world with jobs } }, [ev])

/-- What the comparisons of a call come to. -/
def verdict : Call core → Scene → Verdict
  | verify _ cap method, s => ⟨verifyVerdict X cap method s.world.store.snap, none, none⟩
  | subscribe _ cap _, s => ⟨secretVerdict X cap s.world.store.snap, none, none⟩
  | handle env _ r, s => r.verdict env s.world
  | serve env cap r, s =>
      { r.verdict env s.world with
        secret := verifyVerdict X cap r.method s.world.store.snap }
  | finish _ _ _ _, _ => ⟨none, none, none⟩

/-- The same call, but for secrets. -/
inductive Alike : Call core → Call core → Prop where
  | verify {cap cap' : Option String} (clock : Clock) (method : String)
      (hcap : Token.Alike X cap cap') : Alike (.verify clock cap method) (.verify clock cap' method)
  | subscribe {cap cap' : Option String} (clock : Clock) (topic : String)
      (hcap : Token.Alike X cap cap') :
      Alike (.subscribe clock cap topic) (.subscribe clock cap' topic)
  | handle {env env' : Env} {r r' : Request} (subject : Subject core)
      (henv : env.redact = env'.redact) (hr : r.Alike r') :
      Alike (.handle env subject r) (.handle env' subject r')
  | serve {env env' : Env} {cap cap' : Option String} {r r' : Request}
      (henv : env.redact = env'.redact) (hcap : Token.Alike X cap cap') (hr : r.Alike r') :
      Alike (.serve env cap r) (.serve env' cap' r')
  | finish (i : Nat) (mgr : PackageManager) (event : EventClock) (id : String) :
      Alike (.finish i mgr event id) (.finish i mgr event id)

variable (core)

/-- Calls, as operations on a scene. -/
def machine : Machine (Call core) Scene AuditEvent Verdict where
  step := step X
  verdict := verdict X

/-- **One call.**  In scenes that are the same but for secrets, calls that are leave such scenes and
emit the same events, if their comparisons come to the same. -/
theorem step_redact {call call' : Call core} {s s' : Scene} (hcall : Alike X call call')
    (hs : s.redact = s'.redact) (hverdict : verdict X call s = verdict X call' s') :
    (step X call s).1.redact = (step X call' s').1.redact ∧
      (step X call s).2 = (step X call' s').2 := by
  obtain ⟨hw, hjobs⟩ := Scene.mk.inj hs
  have hstore := redact_store hw
  have hscene : ∀ {w w' : World} {jobs jobs' : List PackageJob}, w.redact = w'.redact →
      jobs = jobs' → (Scene.mk w jobs).redact = (Scene.mk w' jobs').redact := by
    intro w w' jobs jobs' hworld hlist
    show Scene.mk w.redact jobs = Scene.mk w'.redact jobs'
    rw [hworld, hlist]
  cases hcall with
  | verify clock method hcap =>
      obtain ⟨t, t', r, hr, hr', ht⟩ := exists_of_map_eq
        (verify_redact X core clock hcap hstore (Verdict.mk.inj hverdict).1)
      rw [step, step, hr, hr']
      exact ⟨hscene (redact_setStore hw ht) hjobs, rfl⟩
  | subscribe clock topic hcap =>
      obtain ⟨t, t', r, hr, hr', ht⟩ := exists_of_map_eq
        (verifyTopic_redact X core clock topic hcap hstore (Verdict.mk.inj hverdict).1)
      rw [step, step, Api.subscribe, Api.subscribe, hr, hr']
      exact ⟨hscene (redact_setStore hw ht) hjobs, rfl⟩
  | handle subject henv hr =>
      have hresolved : s.world.store.snap.redact = s'.world.store.snap.redact :=
        congrArg FileStore.snap hstore
      have hreported := quietReport_redact henv hr hw
      have hspawned := spawned_redact subject henv hr hw hresolved hreported
      have hhandle := handle_redact X subject henv hr hw hresolved hreported hverdict
      exact ⟨hscene hhandle.state (by rw [hjobs, hspawned]), hhandle.events⟩
  | serve henv hcap hr =>
      obtain ⟨hsecret, hpassword, hclaim⟩ := Verdict.mk.inj hverdict
      have hhandler := Verdict.ext (by rw [Request.verdict_secret, Request.verdict_secret])
        hpassword hclaim
      obtain ⟨hworld, hevents, hspawned⟩ :=
        serve_redact X core henv hcap hr hw hsecret hhandler
      exact ⟨hscene hworld (by rw [hjobs, hspawned]), hevents⟩
  | finish i mgr event id =>
      rw [step, step, hjobs]
      cases s'.jobs[i]? with
      | none => exact ⟨hs, rfl⟩
      | some job =>
          obtain ⟨hsession, hbuckets, hregistry⟩ := World.mk.inj hw
          refine ⟨hscene ?_ rfl, rfl⟩
          show World.mk s.world.session.redact s.world.buckets _ =
            World.mk s'.world.session.redact s'.world.buckets _
          rw [hsession, hbuckets, hregistry]

/-- The calls unwind. -/
theorem unwinding : (machine X core).Unwinding (Alike X) fun s s' ↦ s.redact = s'.redact where
  agree hcall hs hverdict := (step_redact X core hcall hs hverdict).1
  emits hcall hs hverdict := (step_redact X core hcall hs hverdict).2

end Call

/-- **Secrets do not flow into the audit trail.**  Two runs of the same sequence of calls of the
verifier, subscriptions, calls of handlers and ends of jobs, which differ in secrets only (those of
tokens, minted and presented, passwords and their hashes, and bootstrap codes, in the worlds in the
beginning as well as in the calls), and in which every comparison of a secret comes to the same,
emit the same events. -/
theorem trail_eq (X : TokenCrypto) (core : ScopeSets) {s s' : Scene} (hs : s.redact = s'.redact)
    {calls calls' : List (Call core)} (hcalls : List.Forall₂ (Call.Alike X) calls calls')
    (hverdicts : (Call.machine X core).verdicts calls s =
      (Call.machine X core).verdicts calls' s') :
    (Call.machine X core).trace calls s = (Call.machine X core).trace calls' s' :=
  (Call.unwinding X core).trace_eq hcalls hs hverdicts

/-- A bootstrap that was just opened with a code. -/
def codeScene (code : BootstrapCode) : Scene where
  world := { session := .begin emptyStore { zeroDraw 1700000000 with code } none
             buckets := ∅
             jobs := .new }
  jobs := []

/-- An administrator is claimed, comes back with the token, and logs in. -/
def adminCalls (code : BootstrapCode) (secret : Bytes) (password : String) : List (Call .lists) :=
  [.serve { bareEnv with claim := { minuteLater with secret } } none
      (.bootstrapClaim ⟨code.text, "admin", password⟩),
    .verify bareEnv.clock
      (some (Token.mint Token.sampleCrypto (List.replicate 10 0) secret).capability)
      "server.host.info",
    .serve
      { bareEnv with
        bytes := ⟨List.replicate 10 0xff, secret⟩
        verifyPassword := fun presented _ ↦ .ok (presented == password) } none
      (.login ⟨"admin", password, none, none⟩)]

/-- Another code. -/
def sevensCode : BootstrapCode where
  text := String.ofList (List.replicate 52 '7')
  length_eq := by rw [String.toList_ofList, List.length_replicate]
  base32 := by
    intro c hc
    rw [String.toList_ofList] at hc
    rw [List.eq_of_mem_replicate hc]
    rfl

theorem codeScene_redact (code code' : BootstrapCode) :
    (codeScene code).redact = (codeScene code').redact := rfl

/-- The calls are alike, whatever the secrets are. -/
theorem adminCalls_alike (code code' : BootstrapCode) {secret secret' : Bytes}
    (password password' : String)
    (hcap : Token.Alike Token.sampleCrypto
      (some (Token.mint Token.sampleCrypto (List.replicate 10 0) secret).capability)
      (some (Token.mint Token.sampleCrypto (List.replicate 10 0) secret').capability)) :
    List.Forall₂ (Call.Alike Token.sampleCrypto) (adminCalls code secret password)
      (adminCalls code' secret' password') := by
  refine .cons (.serve ?_ (.inl rfl) (.bootstrapClaim ?_)) (.cons (.verify _ _ hcap)
    (.cons (.serve ?_ (.inl rfl) (.login ?_)) .nil))
  · rfl
  · rfl
  · rfl
  · rfl

/-- One trail, with one code, secret and password and with others. -/
theorem trail_eq_adminCalls :
    (Call.machine Token.sampleCrypto .lists).trace
        (adminCalls zeroCode (List.replicate 32 0) "hunter2") (codeScene zeroCode) =
      (Call.machine Token.sampleCrypto .lists).trace
        (adminCalls sevensCode (List.replicate 32 0xff) "correct horse")
        (codeScene sevensCode) := by
  refine trail_eq Token.sampleCrypto .lists (codeScene_redact _ _) (adminCalls_alike _ _ _ _ ?_) ?_
  · exact .inr ⟨_, _, _, _, _, rfl, rfl, Token.parse_zeroToken,
      Token.parse_mint (by decide) (by decide) rfl⟩
  · decide +kernel

end Vaiexia.Api
