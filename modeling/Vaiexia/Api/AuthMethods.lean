import Mathlib.Data.List.Sort
import Vaiexia.Api.Dispatch
import Vaiexia.Auth.Bootstrap

/-!
# The handlers of the auth module

`crates/vaiexia-server/src/api/auth_methods.rs`.  `login` and `token_create` read the store more
than once: each takes the snapshot that it reads first as an argument, apart from the store that it
finally adds the capability to, so that other calls may come in between.

The answer of the rate limiter and the readings of the clock are arguments, and so are the random
bytes of the new token.  `now_secs() + ttl` wraps, as in a release build.
-/

namespace Vaiexia.Api

open Vaiexia.Lib Vaiexia.Audit Vaiexia.Auth

/-! ## Parameters and responses -/

/-- `LoginParams`. -/
structure LoginParams where
  name : String
  password : String
  requestedScopes : Option (List String)
  ttl : Option UInt64

/-- `LoginResponse`. -/
structure LoginResponse where
  capability : String
  expiresAt : Option UInt64
  scopes : List String

/-- `TokenCreateParams`. -/
structure TokenCreateParams where
  label : String
  scopes : List String
  ttl : Option UInt64

/-- `TokenCreateResponse`. -/
structure TokenCreateResponse where
  capability : String
  keyId : String
  scopes : List String

/-- The readings of the clock in a handler: for the expiry and the creation time of a token, for
the event, and the latency. -/
structure Readings where
  expiry : UInt64
  created : UInt64
  event : UInt64
  latencyUs : UInt64

/-- The random bytes of a new token. -/
structure TokenBytes where
  keyId : Bytes
  secret : Bytes

/-! ## `auth.login` -/

/-- The scopes of a login: those of the account, or the requested ones among them. -/
def effectiveScopes (acc : AccountRecord) : Option (List String) → List String
  | none => acc.scopes
  | some requested => requested.filter fun s ↦ acc.scopes.contains s

/-- The record that `login` adds. -/
def loginRecord (X : TokenCrypto) (now : Readings) (bytes : TokenBytes) (p : LoginParams)
    (acc : AccountRecord) : CapabilityRecord :=
  let minted := Token.mint X bytes.keyId bytes.secret
  { keyId := minted.keyId
    secretHash := minted.secretHash
    subjectId := acc.subjectId
    scopes := effectiveScopes acc p.requestedScopes
    label := s!"login-{p.name}"
    createdAt := now.created
    expiresAt := p.ttl.map (now.expiry + ·)
    revoked := false
    lastUsed := none }

/-- `login`, after the limiter said `checked`, with the account looked up in `snap`. -/
def login (X : TokenCrypto) (verifyPassword : String → String → Except String Bool)
    (checked : Except Nat Unit) (now : Readings) (bytes : TokenBytes) (fault : Option StoreError)
    (p : LoginParams) (snap : IdentitySnapshot) (st : FileStore) :
    FileStore × List AuditEvent × Except Diagnostic LoginResponse :=
  let denied (reason : Reason) :=
    (((AuditEvent.new now.event .authDecision .deny "anonymous").withMethod "auth.login").withReason
      reason).withLatencyUs now.latencyUs
  match checked with
  | .error retryAfterSecs =>
      let ev := (AuditEvent.new now.event .rateLimit .deny "anonymous").withMethod "auth.login"
      (st, [ev.withReason .rateLimited],
        .error ⟨.named "RATE_LIMIT", s!"too many attempts; retry after {retryAfterSecs}s"⟩)
  | .ok () =>
      match snap.lookupAccount p.name with
      | none =>
          (st, [denied .unknownAccount], .error ⟨.unauthenticated, "invalid credentials"⟩)
      | some acc =>
          match verifyPassword p.password acc.passwordPhc with
          | .error e => (st, [], .error ⟨.internal, s!"password verify error: {e}"⟩)
          | .ok false =>
              (st, [denied .badPassword], .error ⟨.unauthenticated, "invalid credentials"⟩)
          | .ok true =>
              let minted := Token.mint X bytes.keyId bytes.secret
              let rec' := loginRecord X now bytes p acc
              match st.addCapability fault rec' with
              | (st, .error e) => (st, [], .error ⟨.internal, e.toString⟩)
              | (st, .ok _) =>
                  let ev := (AuditEvent.new now.event .authDecision .allow acc.subjectId).withMethod
                    "auth.login"
                  let ev := ((ev.withCapKeyId minted.keyId).withReason .ok).withLatencyUs
                    now.latencyUs
                  (st, [ev], .ok { capability := minted.capability, expiresAt := rec'.expiresAt
                                   scopes := rec'.scopes })

/-! ## `auth.token.create` -/

/-- `resolve_owner_subject_id`. -/
def resolveOwnerSubjectId {core : ScopeSets} (subject : Subject core) (snap : IdentitySnapshot) :
    String := ownerSubjectId subject snap

/-- The record that `token_create` adds. -/
def tokenCreateRecord (X : TokenCrypto) (now : Readings) (bytes : TokenBytes)
    (p : TokenCreateParams) (subjectId : String) : CapabilityRecord :=
  let minted := Token.mint X bytes.keyId bytes.secret
  { keyId := minted.keyId
    secretHash := minted.secretHash
    subjectId := subjectId
    scopes := p.scopes
    label := p.label
    createdAt := now.created
    expiresAt := p.ttl.map (now.expiry + ·)
    revoked := false
    lastUsed := none }

/-- `token_create`, with the owner of the new token resolved in `snap`.  `debugStrings` is the
`{:?}` text of a list of strings. -/
def tokenCreate (X : TokenCrypto) {core : ScopeSets} (debugStrings : List String → String)
    (now : Readings) (bytes : TokenBytes) (fault : Option StoreError) (p : TokenCreateParams)
    (subject : Subject core) (snap : IdentitySnapshot) (st : FileStore) :
    FileStore × List AuditEvent × Except Diagnostic TokenCreateResponse :=
  if p.scopes.isEmpty then (st, [], .error ⟨.invalidParams, "scopes must not be empty"⟩)
  else
    match p.scopes.find? fun s ↦ !core.contains subject.scopes s with
    | some missing =>
        (st, [], .error ⟨.forbidden, s!"cannot grant scope you do not hold: {missing}"⟩)
    | none =>
        let subjectId := resolveOwnerSubjectId subject snap
        let minted := Token.mint X bytes.keyId bytes.secret
        match st.addCapability fault (tokenCreateRecord X now bytes p subjectId) with
        | (st, .error e) => (st, [], .error ⟨.internal, e.toString⟩)
        | (st, .ok _) =>
            let ev := (AuditEvent.new now.event .mutation .ok subjectId).withMethod
              "auth.token.create"
            let ev := (ev.withCapKeyId minted.keyId).withDetail
              s!"created={minted.keyId} label={p.label} scopes={debugStrings p.scopes}"
            (st, [ev.withLatencyUs now.latencyUs],
              .ok { capability := minted.capability, keyId := minted.keyId, scopes := p.scopes })

/-! ## `auth.bootstrap.claim` -/

/-- `BootstrapClaimResponse`. -/
structure BootstrapClaimResponse where
  capability : String
  subjectId : String
  scopes : List String

/-- The event and the diagnostic of a claim that failed. -/
def claimFailed (now : UInt64) : BootstrapError → AuditEvent × Diagnostic
  | .disabled =>
      ((AuditEvent.new now .bootstrap .deny "anonymous").withDetail
          "bootstrap is disabled; server already initialised",
        ⟨.named "BOOTSTRAP_DISABLED", "bootstrap is disabled; server already initialised"⟩)
  | .badCode =>
      ((AuditEvent.new now .bootstrap .deny "anonymous").withDetail "incorrect bootstrap code",
        ⟨.forbidden, "incorrect bootstrap code"⟩)
  | .rateLimited =>
      (((AuditEvent.new now .rateLimit .deny "anonymous").withMethod
          "auth.bootstrap.claim").withReason .rateLimited,
        ⟨.named "RATE_LIMIT", "too many failed attempts; bootstrap code regenerated"⟩)
  | e =>
      ((AuditEvent.new now .bootstrap .err "anonymous").withDetail s!"internal: {e.toString}",
        ⟨.internal, e.toString⟩)

/-- `bootstrap_claim`. -/
def bootstrapClaim (X : TokenCrypto) (debugStrings : List String → String) (now : UInt64)
    (env : ClaimEnv) (p : ClaimParams) (s : Session) :
    Session × List AuditEvent × Except Diagnostic BootstrapClaimResponse :=
  match s.claim X env p with
  | (s, .error e) =>
      let (ev, d) := claimFailed now e
      (s, [ev], .error d)
  | (s, .ok result) =>
      let ev := (AuditEvent.new now .bootstrap .allow result.subjectId).withDetail
        s!"admin={p.adminName} scopes={debugStrings result.scopes}"
      (s, [ev], .ok ⟨result.capability, result.subjectId, result.scopes⟩)

/-! ## The other handlers -/

/-- `WhoamiResponse`. -/
structure WhoamiResponse where
  subjectId : String
  scopes : List String
  expiresAt : Option UInt64

/-- `whoami`. -/
def whoami {core : ScopeSets} (subject : Subject core) (snap : IdentitySnapshot) :
    WhoamiResponse :=
  match (capKeyId subject).bind snap.lookupCapability with
  | some r => ⟨r.subjectId, r.scopes, r.expiresAt⟩
  | none => ⟨subject.id, [], none⟩

/-- `TokenMetadata`. -/
structure TokenMetadata where
  keyId : String
  label : String
  scopes : List String
  createdAt : UInt64
  expiresAt : Option UInt64
  revoked : Bool
  lastUsed : Option UInt64

/-- What `token_list` shows of a record. -/
def TokenMetadata.ofRecord (r : CapabilityRecord) : TokenMetadata where
  keyId := r.keyId
  label := r.label
  scopes := r.scopes
  createdAt := r.createdAt
  expiresAt := r.expiresAt
  revoked := r.revoked
  lastUsed := r.lastUsed

/-- The order of the listing: by creation, then by key id. -/
def TokenMetadata.le (a b : TokenMetadata) : Bool :=
  a.createdAt < b.createdAt || (a.createdAt == b.createdAt && decide (a.keyId ≤ b.keyId))

/-- `token_list`. -/
def tokenList (snap : IdentitySnapshot) : List TokenMetadata :=
  (snap.capabilities.values.map .ofRecord).mergeSort TokenMetadata.le

/-- `token_revoke`, with the account of the caller looked up in `snap`, after the revocation. -/
def tokenRevoke {core : ScopeSets} (now latencyUs : UInt64) (fault : Option StoreError)
    (keyId : String) (subject : Subject core) (snap : IdentitySnapshot) (st : FileStore) :
    FileStore × List AuditEvent × Except Diagnostic Unit :=
  let subjectId := resolveOwnerSubjectId subject snap
  match st.revokeCapability fault keyId with
  | (st, .ok _) =>
      let ev := (AuditEvent.new now .mutation .ok subjectId).withMethod "auth.token.revoke"
      let ev := ((ev.withCapKeyId keyId).withReason .revoked).withDetail s!"revoked={keyId}"
      (st, [ev.withLatencyUs latencyUs], .ok ())
  | (st, .error e) =>
      let ev := (AuditEvent.new now .mutation .err subjectId).withMethod "auth.token.revoke"
      let ev := ev.withDetail s!"revoke_failed={keyId}"
      let d : Diagnostic :=
        match e with
        | .notFound k => ⟨.named "NOT_FOUND", s!"capability not found: {k}"⟩
        | e => ⟨.internal, e.toString⟩
      (st, [ev.withLatencyUs latencyUs], .error d)

/-! ## What the handlers leave -/

/-- A failed mutation leaves the snapshot alone, and a successful one leaves its closure's. -/
theorem addCapability_cases (fault : Option StoreError) (rec' : CapabilityRecord)
    (st : FileStore) :
    (∃ e, st.addCapability fault rec' = (st, .error e)) ∨
      ∃ st' n, st.addCapability fault rec' = (st', .ok n) ∧
        st'.snap = st.snap.addCapability rec' := by
  rcases FileStore.mutate_cases fault (.addCapability rec') st with h | ⟨next, n, -, happly, h⟩
  · exact .inl h
  · refine .inr ⟨_, n, h, ?_⟩
    exact (Prod.mk.inj (Except.ok.inj happly)).1.symm

/-- **`login`** adds one capability, with scopes of the account only, or leaves the snapshot as it
is. -/
theorem login_cases (X : TokenCrypto) (verifyPassword : String → String → Except String Bool)
    (checked : Except Nat Unit) (now : Readings) (bytes : TokenBytes) (fault : Option StoreError)
    (p : LoginParams) (snap : IdentitySnapshot) (st : FileStore) :
    (∃ st' events d, login X verifyPassword checked now bytes fault p snap st
        = (st', events, .error d) ∧ st'.snap = st.snap) ∨
      ∃ st' events resp acc, login X verifyPassword checked now bytes fault p snap st
        = (st', events, .ok resp) ∧ snap.lookupAccount p.name = some acc ∧
        st'.snap = st.snap.addCapability (loginRecord X now bytes p acc) := by
  unfold login
  split
  · exact .inl ⟨_, _, _, rfl, rfl⟩
  · split
    · exact .inl ⟨_, _, _, rfl, rfl⟩
    · rename_i acc hacc
      split
      · exact .inl ⟨_, _, _, rfl, rfl⟩
      · exact .inl ⟨_, _, _, rfl, rfl⟩
      · rcases addCapability_cases fault (loginRecord X now bytes p acc) st with
          ⟨e, h⟩ | ⟨st', n, h, hsnap⟩
        · simp only [h]
          exact .inl ⟨_, _, _, rfl, rfl⟩
        · simp only [h]
          exact .inr ⟨_, _, _, acc, rfl, hacc, hsnap⟩

/-- The scopes of a login are scopes of the account. -/
theorem effectiveScopes_subset (acc : AccountRecord) (requested : Option (List String)) :
    effectiveScopes acc requested ⊆ acc.scopes := by
  cases requested with
  | none => exact List.Subset.refl _
  | some requested =>
      intro s hs
      exact List.contains_iff_mem.mp (List.mem_filter.mp hs).2

/-- **`token_create`** adds one capability, with scopes that the caller holds only, or leaves the
snapshot as it is. -/
theorem tokenCreate_cases (X : TokenCrypto) {core : ScopeSets}
    (debugStrings : List String → String) (now : Readings) (bytes : TokenBytes)
    (fault : Option StoreError) (p : TokenCreateParams) (subject : Subject core)
    (snap : IdentitySnapshot) (st : FileStore) :
    (∃ st' events d, tokenCreate X debugStrings now bytes fault p subject snap st
        = (st', events, .error d) ∧ st'.snap = st.snap) ∨
      ∃ st' events resp, tokenCreate X debugStrings now bytes fault p subject snap st
        = (st', events, .ok resp) ∧
        (∀ s ∈ p.scopes, core.contains subject.scopes s = true) ∧
        st'.snap = st.snap.addCapability
          (tokenCreateRecord X now bytes p (resolveOwnerSubjectId subject snap)) := by
  unfold tokenCreate
  split
  · exact .inl ⟨_, _, _, rfl, rfl⟩
  · split
    · exact .inl ⟨_, _, _, rfl, rfl⟩
    · rename_i hfind
      have hholds : ∀ s ∈ p.scopes, core.contains subject.scopes s = true := by
        simpa using hfind
      rcases addCapability_cases fault
        (tokenCreateRecord X now bytes p (resolveOwnerSubjectId subject snap)) st with
          ⟨e, h⟩ | ⟨st', n, h, hsnap⟩
      · simp only [h]
        exact .inl ⟨_, _, _, rfl, rfl⟩
      · simp only [h]
        exact .inr ⟨_, _, _, rfl, hholds, hsnap⟩

/-- What the caller holds is granted, if the store can be written. -/
theorem tokenCreate_granted (X : TokenCrypto) {core : ScopeSets}
    (debugStrings : List String → String) (now : Readings) (bytes : TokenBytes)
    {p : TokenCreateParams} {subject : Subject core} (snap : IdentitySnapshot) (st : FileStore)
    (hne : p.scopes ≠ []) (hholds : ∀ s ∈ p.scopes, core.contains subject.scopes s = true) :
    ∃ st' events resp,
      tokenCreate X debugStrings now bytes none p subject snap st = (st', events, .ok resp) := by
  have hfind : (p.scopes.find? fun s ↦ !core.contains subject.scopes s) = none := by
    simpa using hholds
  have hempty : p.scopes.isEmpty = false := by simpa using hne
  simp only [tokenCreate, hempty, hfind]
  exact ⟨_, _, _, rfl⟩

end Vaiexia.Api
