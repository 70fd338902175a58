import Vaiexia.Auth.Verifier

/-!
# From a request to a handler

`register_scoped` of `crates/vaiexia-server/src/api/mod.rs`, the registrations of all modules, and
the way of a request to the body of its handler.  Dispatch itself belongs to `vaiexia_core`: it
calls `verify` and hands the subject on to the handler that is registered for the method, where the
guard of `register_scoped` comes first.

`mediation` is the whole decision: which requests reach a handler, and which subscriptions are
accepted.
-/

namespace Vaiexia.Api

open Vaiexia.Lib Vaiexia.Audit Vaiexia.Auth

/-! ## Audit events of handlers -/

/-- `ApiDeps::subject_label`, with a store to look into. -/
def subjectLabel {core : ScopeSets} (subject : Subject core) (snap : IdentitySnapshot) : String :=
  ownerSubjectId subject snap

/-- `subject_event`. -/
def subjectEvent {core : ScopeSets} (now : UInt64) (snap : IdentitySnapshot)
    (subject : Subject core) (kind : AuditKind) (decision : AuditDecision) : AuditEvent :=
  let ev := AuditEvent.new now kind decision (subjectLabel subject snap)
  match capKeyId subject with
  | some keyId => ev.withCapKeyId keyId
  | none => ev

/-- `scoped_event`. -/
def scopedEvent {core : ScopeSets} (now : UInt64) (snap : IdentitySnapshot)
    (subject : Subject core) (decision : AuditDecision) : AuditEvent :=
  subjectEvent now snap subject .scopeDecision decision

/-! ## Registration -/

/-- `ScopeAudit`. -/
inductive ScopeAudit where
  | denyOnly
  | auditAllow
deriving DecidableEq, Repr

/-- What `register_scoped` keeps of a registration. -/
structure Registered where
  method : String
  scope : Option String
  scopeAudit : ScopeAudit
deriving DecidableEq, Repr

/-- `register_scoped`; `none` is the panic for a method without a policy. -/
def registerScoped (method : String) (scopeAudit : ScopeAudit) : Option Registered :=
  match methodRequirement method with
  | none => none
  | some (.scope s) => some ⟨method, some s, scopeAudit⟩
  | some _ => some ⟨method, none, scopeAudit⟩

/-- The guard that `register_scoped` puts before a handler. -/
def Registered.guard (reg : Registered) (core : ScopeSets) (now : UInt64)
    (snap : IdentitySnapshot) (subject : Subject core) :
    List AuditEvent × Except Diagnostic Unit :=
  let missing := reg.scope.filter fun s ↦ !core.contains subject.scopes s
  match missing with
  | some s =>
      let ev :=
        ((scopedEvent now snap subject .deny).withMethod reg.method).withReason .missingScope
      ([ev.withDetail s!"missing scope {s}"], .error ⟨.forbidden, s!"missing scope {s}"⟩)
  | none =>
      match reg.scopeAudit with
      | .auditAllow =>
          let ev := (scopedEvent now snap subject .allow).withMethod reg.method
          ([ev.withReason .sensitiveRead], .ok ())
      | .denyOnly => ([], .ok ())

/-- The calls of `register_scoped` in `ServerModule` and `AuthModule`. -/
def registrations : List (String × ScopeAudit) :=
  [("server.host.info", .denyOnly),
    ("server.services.list", .denyOnly),
    ("server.services.status", .denyOnly),
    ("server.services.start", .denyOnly),
    ("server.services.stop", .denyOnly),
    ("server.services.restart", .denyOnly),
    ("server.packages.list", .denyOnly),
    ("server.packages.install", .denyOnly),
    ("server.packages.remove", .denyOnly),
    ("server.logs.query", .auditAllow),
    ("server.jobs.status", .denyOnly),
    ("auth.bootstrap.claim", .denyOnly),
    ("auth.login", .denyOnly),
    ("auth.whoami", .denyOnly),
    ("auth.token.create", .denyOnly),
    ("auth.token.list", .denyOnly),
    ("auth.token.revoke", .denyOnly)]

/-- The methods that `build_service` registers. -/
def service : List Registered := registrations.filterMap fun (m, audit) ↦ registerScoped m audit

/-- No registration panics. -/
theorem length_service : service.length = registrations.length := by decide

/-- A registration carries the scope of the policy, and there is a policy. -/
theorem mem_service {reg : Registered} (h : reg ∈ service) :
    ∃ requirement, methodRequirement reg.method = some requirement ∧
      ∀ s, reg.scope = some s ↔ requirement = .scope s := by
  obtain ⟨⟨m, audit⟩, -, hreg⟩ := List.mem_filterMap.mp h
  change registerScoped m audit = some reg at hreg
  unfold registerScoped at hreg
  split at hreg
  · cases hreg
  · rename_i s hs
    obtain rfl := Option.some.inj hreg
    exact ⟨.scope s, hs, fun s' ↦ by simp⟩
  · rename_i requirement hne hsome
    obtain rfl := Option.some.inj hreg
    refine ⟨requirement, hsome, fun s ↦ ?_⟩
    constructor
    · intro hs
      cases hs
    · rintro rfl
      exact absurd rfl (hne s)

/-! ## Dispatch -/

/-- A request whose parameters deserialize: `verify`, then the guard.  The subject is the one that
the body of the handler is entered with. -/
def dispatch (X : TokenCrypto) (core : ScopeSets) (clock : Clock) (guardNow : UInt64)
    (cap : Option String) (reg : Registered) (st : FileStore) :
    FileStore × List AuditEvent × Except Diagnostic (Subject core) :=
  match verify X core clock cap reg.method st with
  | (st, events, .error e) => (st, events, .error e)
  | (st, events, .ok subject) =>
      match reg.guard core guardNow st.snap subject with
      | (more, .error e) => (st, events ++ more, .error e)
      | (more, .ok ()) => (st, events ++ more, .ok subject)

/-- `subscribe` calls `verify_topic`. -/
def subscribe (X : TokenCrypto) (core : ScopeSets) (clock : Clock) (cap : Option String)
    (topic : String) (st : FileStore) :
    FileStore × List AuditEvent × Except Diagnostic (Subject core) :=
  verifyTopic X core clock cap topic st

section Mediation

variable {X : TokenCrypto} {core : ScopeSets} {clock : Clock} {guardNow : UInt64}
  {cap : Option String}

/-- The guard passes a subject that holds the scope. -/
theorem Registered.guard_ok_iff {reg : Registered} {snap : IdentitySnapshot}
    {subject : Subject core} :
    (reg.guard core guardNow snap subject).2 = .ok () ↔
      ∀ s, reg.scope = some s → core.contains subject.scopes s = true := by
  unfold guard
  rcases reg.scope with _ | s
  · cases reg.scopeAudit <;> simp
  · simp only [Option.filter_some, Option.some.injEq, forall_eq']
    rcases core.contains subject.scopes s with _ | _
    · simp
    · cases reg.scopeAudit <;> simp

/-- A handler is entered with the subject of the verifier, if that passes the guard. -/
theorem dispatch_ok_iff {reg : Registered} {st : FileStore} {subject : Subject core} :
    (dispatch X core clock guardNow cap reg st).2.2 = .ok subject ↔
      (verify X core clock cap reg.method st).2.2 = .ok subject ∧
        ∀ s, reg.scope = some s → core.contains subject.scopes s = true := by
  unfold dispatch
  rcases verify X core clock cap reg.method st with ⟨st', events, e | subject'⟩
  · simp
  · have hiff := @Registered.guard_ok_iff core guardNow reg st'.snap subject'
    rcases hguard : reg.guard core guardNow st'.snap subject' with ⟨more, e | ⟨⟩⟩
    · rw [hguard] at hiff
      simp only [reduceCtorEq, false_iff] at hiff
      simp only [hguard]
      constructor
      · intro h
        cases h
      · rintro ⟨h, hscope⟩
        obtain rfl := Except.ok.inj h
        exact absurd hscope hiff
    · rw [hguard] at hiff
      simp only [hguard]
      constructor
      · intro h
        obtain rfl := Except.ok.inj h
        exact ⟨rfl, hiff.mp rfl⟩
      · exact fun h ↦ h.1

theorem dispatch_snap (X : TokenCrypto) (core : ScopeSets) (clock : Clock) (guardNow : UInt64)
    (cap : Option String) (reg : Registered) (st : FileStore) :
    (dispatch X core clock guardNow cap reg st).1.snap = st.snap := by
  have hsnap := verify_snap X core clock cap reg.method st
  unfold dispatch
  split
  · rename_i h
    rw [h] at hsnap
    exact hsnap
  · rename_i h
    rw [h] at hsnap
    split <;> exact hsnap

/-- **Complete mediation.**  The body of a registered handler that is not open to everybody runs
exactly when the token is authentic in the store and its record has the scope that the policy
demands, and a subscription is accepted exactly when the token is authentic and its record has the
scope of the topic's policy entry. -/
theorem mediation (X : TokenCrypto) (core : ScopeSets) (clock : Clock) (guardNow : UInt64)
    (cap : Option String) (st : FileStore) :
    (∀ reg ∈ service, methodRequirement reg.method ≠ some .anonymous →
      ((∃ subject, (dispatch X core clock guardNow cap reg st).2.2 = .ok subject) ↔
        ∃ keyId rec, Authentic X clock.expiry cap st.snap keyId rec ∧
          ∀ s, methodRequirement reg.method = some (.scope s) → s ∈ rec.scopes)) ∧
    ∀ topic, (∃ subject, (subscribe X core clock cap topic st).2.2 = .ok subject) ↔
      ∃ keyId rec s, Authentic X clock.expiry cap st.snap keyId rec ∧
        topicScope topic = some s ∧ s ∈ rec.scopes := by
  constructor
  · intro reg hreg hanon
    obtain ⟨requirement, hpolicy, hscope⟩ := mem_service hreg
    have hverify : verify X core clock cap reg.method st
        = verifyAuthenticated X core clock cap reg.method st := by
      unfold verify
      rw [hpolicy] at hanon ⊢
      cases requirement with
      | anonymous => exact absurd rfl hanon
      | authenticated | scope => rfl
    simp only [dispatch_ok_iff, hverify, verifyAuthenticated_ok_iff, hpolicy, hscope,
      Option.some.injEq]
    constructor
    · rintro ⟨_, ⟨keyId, rec, hauth, rfl⟩, hholds⟩
      exact ⟨keyId, rec, hauth, fun s hs ↦ contains_subject.mp (hholds s hs)⟩
    · rintro ⟨keyId, rec, hauth, hholds⟩
      exact ⟨rec.subject core, ⟨keyId, rec, hauth, rfl⟩,
        fun s hs ↦ contains_subject.mpr (hholds s hs)⟩
  · intro topic
    simp only [subscribe, verifyTopic_ok_iff]
    constructor
    · rintro ⟨_, keyId, rec, s, hauth, htopic, hs, -⟩
      exact ⟨keyId, rec, s, hauth, htopic, hs⟩
    · rintro ⟨keyId, rec, s, hauth, htopic, hs⟩
      exact ⟨rec.subject core, keyId, rec, s, hauth, htopic, hs, rfl⟩

end Mediation

/-- A capability that reads, under the zero token. -/
def readerRecord : CapabilityRecord where
  keyId := Token.zeroToken.keyId
  secretHash := Token.zeroToken.secretHash
  subjectId := "user:admin"
  scopes := ["server.read"]
  label := "login-admin"
  createdAt := 1700000000
  expiresAt := some 1700003600
  revoked := false
  lastUsed := none

/-- A store with that capability only. -/
def readerStore : FileStore where
  file := some (IdentitySnapshot.default.addCapability readerRecord).toJson
  snap := IdentitySnapshot.default.addCapability readerRecord
  pendingTouch := ∅

/-- The reader may ask for the host's information, and is refused a service restart. -/
theorem mediation_reader :
    (∃ subject, (dispatch Token.sampleCrypto .lists ⟨1700003599, 0, 0⟩ 0
        (some Token.zeroToken.capability) ⟨"server.host.info", some "server.read", .denyOnly⟩
        readerStore).2.2 = .ok subject) ∧
      ¬ ∃ subject, (dispatch Token.sampleCrypto .lists ⟨1700003599, 0, 0⟩ 0
        (some Token.zeroToken.capability)
        ⟨"server.services.restart", some "server.services.write", .denyOnly⟩
        readerStore).2.2 = .ok subject := by
  have hauth : Authentic Token.sampleCrypto 1700003599 (some Token.zeroToken.capability)
      readerStore.snap Token.zeroToken.keyId readerRecord := by
    refine ⟨_, _, rfl, Token.parse_zeroToken, rfl, rfl, rfl, ?_⟩
    intro exp hexp
    rw [← Option.some.inj hexp]
    decide
  have hmediation := mediation Token.sampleCrypto .lists ⟨1700003599, 0, 0⟩ 0
    (some Token.zeroToken.capability) readerStore
  constructor
  · rw [hmediation.1 _ (by decide) (by decide)]
    refine ⟨_, _, hauth, fun s hs ↦ ?_⟩
    have hpolicy : methodRequirement "server.host.info" = some (.scope "server.read") := rfl
    obtain rfl := Requirement.scope.inj (Option.some.inj (hpolicy.symm.trans hs))
    exact List.mem_cons_self
  · rw [hmediation.1 _ (by decide) (by decide)]
    rintro ⟨keyId, rec, hauth', hscope⟩
    obtain ⟨-, rfl⟩ := hauth.unique hauth'
    have hmem := hscope "server.services.write" rfl
    revert hmem
    decide

end Vaiexia.Api
