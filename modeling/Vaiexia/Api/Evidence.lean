import Vaiexia.Api.Serve

/-!
# Denials leave evidence

A denial is `Evidenced` if an event with the decision `deny` was emitted while it was served.
Verifier, guard and handlers each see to their own denials; `token_create` does not, and
`evidence_iff` says when that shows.
-/

namespace Vaiexia.Api

open Vaiexia.Lib Vaiexia.Audit Vaiexia.Auth Vaiexia.Backend

/-! ## Denials -/

/-- `UNAUTHENTICATED`, `FORBIDDEN` and `RATE_LIMIT`. -/
def Diagnostic.IsDenial (d : Diagnostic) : Prop :=
  d.code = .unauthenticated ∨ d.code = .forbidden ∨ d.code = .named "RATE_LIMIT"

/-- If a denial is answered, an event with the decision `deny` was emitted. -/
def Evidenced {α : Type} (events : List AuditEvent) (result : Except Diagnostic α) : Prop :=
  ∀ d, result = .error d → Diagnostic.IsDenial d → ∃ ev ∈ events, ev.decision = .deny

section Evidenced

variable {α β : Type} {events : List AuditEvent} {result : Except Diagnostic α}

theorem Evidenced.ok (events : List AuditEvent) (a : α) :
    Evidenced events (.ok a : Except Diagnostic α) := fun _ h ↦ nomatch h

/-- A denial with its event. -/
theorem Evidenced.deny {ev : AuditEvent} (h : ev.decision = .deny) (hmem : ev ∈ events) :
    Evidenced events result := fun _ _ _ ↦ ⟨ev, hmem, h⟩

/-- A diagnostic that is no denial. -/
theorem Evidenced.other {d : Diagnostic} (h : ¬ Diagnostic.IsDenial d) :
    Evidenced events (.error d : Except Diagnostic α) := by
  rintro d' ⟨⟩ hdenial
  exact absurd hdenial h

/-- Which response an answer has does not matter. -/
theorem Evidenced.of_error {d : Diagnostic}
    (h : Evidenced events (.error d : Except Diagnostic α)) :
    Evidenced events (.error d : Except Diagnostic β) := by
  rintro d' ⟨⟩ hdenial
  exact h d rfl hdenial

theorem evidenced_map_iff (f : α → β) :
    Evidenced events (result.map f) ↔ Evidenced events result := by
  cases result with
  | error d => exact ⟨Evidenced.of_error, Evidenced.of_error⟩
  | ok a => exact iff_of_true (.ok events (f a)) (.ok events a)

theorem Evidenced.map (h : Evidenced events result) (f : α → β) :
    Evidenced events (result.map f) := (evidenced_map_iff f).mpr h

theorem Evidenced.append_left (h : Evidenced events result) (before : List AuditEvent) :
    Evidenced (before ++ events) result := by
  intro d hd hdenial
  obtain ⟨ev, hmem, hdeny⟩ := h d hd hdenial
  exact ⟨ev, List.mem_append_right before hmem, hdeny⟩

end Evidenced

/-- The codes that are no denials. -/
theorem not_isDenial_of_code {d : Diagnostic} (h : d.code = .internal ∨ d.code = .invalidParams ∨
    ∃ code, d.code = .named code ∧ code ≠ "RATE_LIMIT") : ¬ Diagnostic.IsDenial d := by
  rintro (hd | hd | hd) <;> rw [hd] at h <;> simp at h

/-- The backend denies nothing. -/
theorem not_isDenial_backendError (e : BackendError) :
    ¬ Diagnostic.IsDenial (backendErrorToDiagnostic e) := by
  apply not_isDenial_of_code
  cases e <;> simp [backendErrorToDiagnostic, notFoundCode, unsupportedCode]

/-! ## The server module -/

/-- No error of the result is a denial. -/
def NoDenial {α : Type} (result : Except Diagnostic α) : Prop :=
  ∀ d, result = .error d → ¬ Diagnostic.IsDenial d

theorem NoDenial.evidenced {α : Type} {result : Except Diagnostic α} (h : NoDenial result)
    (events : List AuditEvent) : Evidenced events result :=
  fun d hd hdenial ↦ absurd hdenial (h d hd)

theorem noDenial_ok {α : Type} (a : α) : NoDenial (.ok a : Except Diagnostic α) :=
  fun _ h ↦ nomatch h

theorem noDenial_error {α : Type} {d : Diagnostic} (h : ¬ Diagnostic.IsDenial d) :
    NoDenial (.error d : Except Diagnostic α) := by
  rintro d' ⟨⟩
  exact h

section Server

variable (be : SystemBackend)

theorem hostInfoResult_noDenial : NoDenial (hostInfoResult be) := by
  unfold hostInfoResult
  split
  · exact noDenial_error (not_isDenial_backendError _)
  · exact noDenial_ok _

theorem servicesListResult_noDenial (p : ServicesListParams) :
    NoDenial (servicesListResult be p) := by
  unfold servicesListResult
  split
  · exact noDenial_error (not_isDenial_of_code (.inr (.inl rfl)))
  · split
    · exact noDenial_error (not_isDenial_of_code (.inr (.inr ⟨_, rfl, by decide⟩)))
    · split
      · exact noDenial_error (not_isDenial_backendError _)
      · exact noDenial_ok _

theorem validateAndGetManager_noDenial (name : String) :
    NoDenial (validateAndGetManager be name) := by
  unfold validateAndGetManager
  split
  · exact noDenial_error (not_isDenial_of_code (.inr (.inl rfl)))
  · split
    · exact noDenial_error (not_isDenial_of_code (.inr (.inr ⟨_, rfl, by decide⟩)))
    · exact noDenial_ok _

theorem serviceStatusResult_noDenial (name : String) :
    NoDenial (serviceStatusResult be name) := by
  have hmanager := validateAndGetManager_noDenial be name
  unfold serviceStatusResult
  split
  · rename_i d hd
    exact noDenial_error (hmanager d hd)
  · split
    · exact noDenial_error (not_isDenial_backendError _)
    · exact noDenial_ok _

theorem runServiceMutation_noDenial {core : ScopeSets} (clock : EventClock) (elapsed : Bool)
    (snap : IdentitySnapshot) (subject : Subject core) (verb : ServiceVerb) (name : String) :
    NoDenial (runServiceMutation be clock elapsed snap subject verb name).2 := by
  have hmanager := validateAndGetManager_noDenial be name
  unfold runServiceMutation
  split
  · rename_i d hd
    exact noDenial_error (hmanager d hd)
  · dsimp only
    split
    · exact noDenial_ok _
    · split
      · exact noDenial_error (not_isDenial_backendError _)
      · exact noDenial_ok _

theorem packagesListResult_noDenial (p : PackagesListParams) :
    NoDenial (packagesListResult be p) := by
  unfold packagesListResult
  split
  · exact noDenial_error (not_isDenial_of_code (.inr (.inr ⟨_, rfl, by decide⟩)))
  · split
    · exact noDenial_error (not_isDenial_backendError _)
    · exact noDenial_ok _

theorem runPackageMutation_noDenial {core : ScopeSets} (clock : EventClock) (id : String)
    (jobSnap eventSnap : IdentitySnapshot) (subject : Subject core) (verb : PackageVerb)
    (name : String) (inner : RegistryInner) :
    NoDenial (runPackageMutation be clock id jobSnap eventSnap subject verb name inner).2.2.2 := by
  unfold runPackageMutation
  dsimp only
  split
  · rename_i d hd
    unfold parsePackageName at hd
    split at hd
    · cases hd
    · cases hd
      exact noDenial_error (not_isDenial_of_code (.inr (.inl rfl)))
  · split
    · exact noDenial_error (not_isDenial_of_code (.inr (.inr ⟨_, rfl, by decide⟩)))
    · split
      · exact noDenial_error (not_isDenial_backendError _)
      · exact noDenial_ok _

theorem logsQueryResult_noDenial (p : LogsQueryParams) : NoDenial (logsQueryResult be p) := by
  unfold logsQueryResult
  split
  · exact noDenial_error (not_isDenial_of_code (.inr (.inl rfl)))
  split
  · exact noDenial_error (not_isDenial_of_code (.inr (.inl rfl)))
  split
  · exact noDenial_error (not_isDenial_of_code (.inr (.inl rfl)))
  split
  · exact noDenial_error (not_isDenial_of_code (.inr (.inl rfl)))
  split
  · exact noDenial_error (not_isDenial_of_code (.inr (.inr ⟨_, rfl, by decide⟩)))
  · split
    · exact noDenial_error (not_isDenial_backendError _)
    · exact noDenial_ok _

theorem jobsStatusResult_noDenial (inner : RegistryInner) (jobId : String) :
    NoDenial (jobsStatusResult inner jobId) := by
  unfold jobsStatusResult
  split
  · exact noDenial_ok _
  · exact noDenial_error (not_isDenial_of_code (.inr (.inr ⟨_, rfl, by decide⟩)))

end Server

/-! ## The auth module -/

section Auth

variable (X : TokenCrypto) {core : ScopeSets}

theorem bootstrapClaim_evidenced (debugStrings : List String → String) (now : UInt64)
    (env : ClaimEnv) (p : ClaimParams) (s : Session) :
    Evidenced (bootstrapClaim X debugStrings now env p s).2.1
      (bootstrapClaim X debugStrings now env p s).2.2 := by
  unfold bootstrapClaim
  split
  · rename_i e _
    dsimp only
    cases e with
    | disabled | badCode | rateLimited => exact .deny rfl (List.mem_singleton.mpr rfl)
    | storeError | io | password => exact .other (not_isDenial_of_code (.inl rfl))
  · exact .ok _ _

theorem login_evidenced (verifyPassword : String → String → Except String Bool)
    (checked : Except Nat Unit) (now : Readings) (bytes : TokenBytes) (fault : Option StoreError)
    (p : LoginParams) (snap : IdentitySnapshot) (st : FileStore) :
    Evidenced (login X verifyPassword checked now bytes fault p snap st).2.1
      (login X verifyPassword checked now bytes fault p snap st).2.2 := by
  unfold login
  dsimp only
  split
  · exact .deny rfl (List.mem_singleton.mpr rfl)
  · split
    · exact .deny rfl (List.mem_singleton.mpr rfl)
    · split
      · exact .other (not_isDenial_of_code (.inl rfl))
      · exact .deny rfl (List.mem_singleton.mpr rfl)
      · split
        · exact .other (not_isDenial_of_code (.inl rfl))
        · exact .ok _ _

theorem tokenRevoke_evidenced (now latencyUs : UInt64) (fault : Option StoreError)
    (keyId : String) (subject : Subject core) (snap : IdentitySnapshot) (st : FileStore) :
    Evidenced (tokenRevoke now latencyUs fault keyId subject snap st).2.1
      (tokenRevoke now latencyUs fault keyId subject snap st).2.2 := by
  unfold tokenRevoke
  dsimp only
  split
  · exact .ok _ _
  · refine .other (not_isDenial_of_code ?_)
    split
    · exact .inr (.inr ⟨_, rfl, by decide⟩)
    · exact .inl rfl

/-- **The gap**: `token_create` refuses a scope that the caller does not hold without an event. -/
theorem tokenCreate_evidenced_iff (debugStrings : List String → String) (now : Readings)
    (bytes : TokenBytes) (fault : Option StoreError) (p : TokenCreateParams)
    (subject : Subject core) (snap : IdentitySnapshot) (st : FileStore)
    {before : List AuditEvent} (hbefore : ∀ ev ∈ before, ev.decision ≠ .deny) :
    Evidenced (before ++ (tokenCreate X debugStrings now bytes fault p subject snap st).2.1)
        (tokenCreate X debugStrings now bytes fault p subject snap st).2.2 ↔
      ∀ s ∈ p.scopes, core.contains subject.scopes s = true := by
  unfold tokenCreate
  split
  · rename_i hempty
    refine iff_of_true (.other (not_isDenial_of_code (.inr (.inl rfl)))) ?_
    rw [List.isEmpty_iff.mp hempty]
    exact fun s hs ↦ nomatch hs
  · split
    · rename_i missing hfind
      refine iff_of_false (fun h ↦ ?_) (fun h ↦ ?_)
      · obtain ⟨ev, hmem, hdeny⟩ := h _ rfl (.inr (.inl rfl))
        rw [List.append_nil] at hmem
        exact hbefore ev hmem hdeny
      · have hnot := List.find?_some hfind
        rw [h missing (List.mem_of_find?_eq_some hfind)] at hnot
        cases hnot
    · rename_i hfind
      have hholds : ∀ s ∈ p.scopes, core.contains subject.scopes s = true := by
        simpa using hfind
      refine iff_of_true ?_ hholds
      dsimp only
      split
      · exact .other (not_isDenial_of_code (.inl rfl))
      · exact .ok _ _

end Auth

/-! ## Verifier and guard -/

section Verifier

variable {X : TokenCrypto} {core : ScopeSets} {clock : Clock} {cap : Option String}

@[simp] theorem decision_withTokenKeyId (cap : Option String) (ev : AuditEvent) :
    (withTokenKeyId cap ev).decision = ev.decision := by
  unfold withTokenKeyId
  split <;> rfl

@[simp] theorem decision_subjectEvent {core : ScopeSets} (now : UInt64) (snap : IdentitySnapshot)
    (subject : Subject core) (kind : AuditKind) (decision : AuditDecision) :
    (subjectEvent now snap subject kind decision).decision = decision := by
  unfold subjectEvent
  dsimp only
  split <;> rfl

/-- The verifier's event of a method says what it decided. -/
theorem verifyAuthenticated_decision (method : String) (st : FileStore) :
    ∃ ev, (verifyAuthenticated X core clock cap method st).2.1 = [ev] ∧
      (ev.decision = .deny ↔
        ∃ d, (verifyAuthenticated X core clock cap method st).2.2 = .error d) := by
  unfold verifyAuthenticated
  split
  · refine ⟨_, rfl, iff_of_false ?_ ?_⟩
    · rw [decision_withTokenKeyId]
      exact fun h ↦ nomatch h
    · rintro ⟨d, hd⟩
      cases hd
  · exact ⟨_, rfl, iff_of_true (decision_withTokenKeyId _ _) ⟨_, rfl⟩⟩

/-- A refusal of the verifier is evidenced, and it emits no `deny` otherwise. -/
theorem verify_evidenced (method : String) (st : FileStore) :
    Evidenced (verify X core clock cap method st).2.1 (verify X core clock cap method st).2.2 ∧
      ∀ subject, (verify X core clock cap method st).2.2 = .ok subject →
        ∀ ev ∈ (verify X core clock cap method st).2.1, ev.decision ≠ .deny := by
  have hauth : Evidenced (verifyAuthenticated X core clock cap method st).2.1
      (verifyAuthenticated X core clock cap method st).2.2 ∧
      ∀ subject, (verifyAuthenticated X core clock cap method st).2.2 = .ok subject →
        ∀ ev ∈ (verifyAuthenticated X core clock cap method st).2.1, ev.decision ≠ .deny := by
    obtain ⟨ev, hev, hdeny⟩ :=
      @verifyAuthenticated_decision X core clock cap method st
    rw [hev]
    constructor
    · intro d hd _
      exact ⟨ev, List.mem_singleton.mpr rfl, hdeny.mpr ⟨d, hd⟩⟩
    · intro subject hok ev' hmem hdeny'
      rw [List.mem_singleton.mp hmem] at hdeny'
      obtain ⟨d, hd⟩ := hdeny.mp hdeny'
      rw [hok] at hd
      cases hd
  unfold verify
  split
  · exact hauth
  · exact ⟨.ok _ _, fun _ _ _ h ↦ nomatch h⟩
  · exact hauth
  · exact hauth

/-- A refusal of the guard is evidenced, and it emits no `deny` otherwise. -/
theorem Registered.guard_evidenced (reg : Registered) (now : UInt64) (snap : IdentitySnapshot)
    (subject : Subject core) :
    Evidenced (reg.guard core now snap subject).1 (reg.guard core now snap subject).2 ∧
      ((reg.guard core now snap subject).2 = .ok () →
        ∀ ev ∈ (reg.guard core now snap subject).1, ev.decision ≠ .deny) := by
  unfold Registered.guard
  dsimp only
  split
  · exact ⟨.deny (by simp [scopedEvent]) (List.mem_singleton.mpr rfl), fun h ↦ nomatch h⟩
  · split
    · refine ⟨.ok _ _, fun _ ev hmem ↦ ?_⟩
      rw [List.mem_singleton.mp hmem]
      simp [scopedEvent]
    · exact ⟨.ok _ _, fun _ _ h ↦ nomatch h⟩

/-- A refusal before the handler is evidenced, and no `deny` is emitted if the handler is
entered. -/
theorem dispatch_evidenced (guardNow : UInt64) (reg : Registered) (st : FileStore) :
    Evidenced (dispatch X core clock guardNow cap reg st).2.1
        (dispatch X core clock guardNow cap reg st).2.2 ∧
      ∀ subject, (dispatch X core clock guardNow cap reg st).2.2 = .ok subject →
        ∀ ev ∈ (dispatch X core clock guardNow cap reg st).2.1, ev.decision ≠ .deny := by
  have hverify := @verify_evidenced X core clock cap reg.method st
  unfold dispatch
  split
  · rename_i h
    rw [h] at hverify
    refine ⟨fun d hd hdenial ↦ ?_, fun subject hok ↦ nomatch hok⟩
    cases hd
    exact hverify.1 _ rfl hdenial
  · rename_i st' events subject h
    rw [h] at hverify
    have hguard := reg.guard_evidenced guardNow st'.snap subject
    split
    · rename_i hg
      rw [hg] at hguard
      refine ⟨fun d hd hdenial ↦ ?_, fun subject hok ↦ nomatch hok⟩
      cases hd
      exact hguard.1.append_left events _ rfl hdenial
    · rename_i hg
      rw [hg] at hguard
      refine ⟨.ok _ _, fun subject' _ ev hmem ↦ ?_⟩
      rcases List.mem_append.mp hmem with hmem | hmem
      · exact hverify.2 subject rfl ev hmem
      · exact hguard.2 rfl ev hmem

/-- A refusal of a subscription is evidenced. -/
theorem subscribe_evidenced (topic : String) (st : FileStore) :
    Evidenced (subscribe X core clock cap topic st).2.1
      (subscribe X core clock cap topic st).2.2 := by
  unfold subscribe verifyTopic
  split
  · exact .deny (decision_withTokenKeyId cap _) (List.mem_singleton.mpr rfl)
  · dsimp only
    split
    · exact .deny rfl (List.mem_singleton.mpr rfl)
    · split
      · exact .deny rfl (List.mem_singleton.mpr rfl)
      · exact .ok _ _

end Verifier

/-! ## A whole request -/

section Request

variable {X : TokenCrypto} {core : ScopeSets} {env : Env}

/-- Every other handler sees to its own denials. -/
theorem handle_evidenced (subject : Subject core) (resolved reported : IdentitySnapshot)
    (w : World) {r : Request} (hr : ∀ p, r ≠ .tokenCreate p) :
    Evidenced (handle X env subject resolved reported w r).2.1
      (handle X env subject resolved reported w r).2.2 := by
  cases r with
  | hostInfo => exact ((hostInfoResult_noDenial env.backend).evidenced []).map _
  | servicesList p => exact ((servicesListResult_noDenial env.backend p).evidenced []).map _
  | servicesStatus name =>
      exact ((serviceStatusResult_noDenial env.backend name).evidenced []).map _
  | serviceMutation verb name =>
      exact ((runServiceMutation_noDenial env.backend env.event env.elapsed reported subject verb
        name).evidenced _).map _
  | packagesList p => exact ((packagesListResult_noDenial env.backend p).evidenced []).map _
  | packageMutation verb name =>
      exact ((runPackageMutation_noDenial env.backend env.event env.jobId resolved reported
        subject verb name w.jobs).evidenced _).map _
  | logsQuery p => exact ((logsQueryResult_noDenial env.backend p).evidenced []).map _
  | jobsStatus jobId => exact ((jobsStatusResult_noDenial w.jobs jobId).evidenced []).map _
  | bootstrapClaim p =>
      exact (bootstrapClaim_evidenced X env.debugStrings env.event.now env.claim p w.session).map _
  | login p =>
      have hlogin := login_evidenced X env.verifyPassword
        ((env.limiter.check env.limiterNow p.name w.buckets).2.mapError RateLimited.retryAfterSecs)
        env.readings env.bytes env.fault p w.store.snap w.store
      have hlimited : Evidenced (loginLimited X env p w).2.1 (loginLimited X env p w).2.2 := by
        unfold loginLimited
        dsimp only
        split
        · exact .ok _ _
        · rename_i h
          rw [h] at hlogin
          exact hlogin
      exact hlimited.map _
  | whoami => exact .ok _ _
  | tokenCreate p => exact absurd rfl (hr p)
  | tokenList => exact .ok _ _
  | tokenRevoke keyId =>
      exact (tokenRevoke_evidenced env.event.now env.event.latencyUs env.fault keyId subject _
        w.store).map _

/-- A caller that may create tokens asks for a scope that its own token does not have. -/
def Escalates (X : TokenCrypto) (now : UInt64) (cap : Option String) (snap : IdentitySnapshot) :
    Request → Prop
  | .tokenCreate p => ∃ keyId rec, Authentic X now cap snap keyId rec ∧ "auth.admin" ∈ rec.scopes ∧
      ∃ s ∈ p.scopes, s ∉ rec.scopes
  | _ => False

/-- What a request is served by. -/
theorem serve_eq {reg : Registered} {r : Request}
    (h : (service.find? fun reg ↦ reg.method == r.method) = some reg) (cap : Option String)
    (w : World) :
    serve X core env cap r w =
      match dispatch X core env.clock env.guardNow cap reg w.store with
      | (st, events, .error d) => (w.setStore st, events, some (.error d))
      | (st, events, .ok subject) =>
          let w := w.setStore st
          let (w, more, result) := handle X env subject w.store.snap (quietReport env w r) w r
          (w, events ++ more, some result) := by
  unfold serve
  split
  · rename_i hnone
    cases h.symm.trans hnone
  · rename_i found hfound
    obtain rfl := Option.some.inj (h.symm.trans hfound)
    rfl

/-- The registration of `auth.token.create` is found. -/
theorem find_tokenCreate (p : TokenCreateParams) :
    (service.find? fun reg ↦ reg.method == (Request.tokenCreate p).method) =
      some ⟨"auth.token.create", some "auth.admin", .denyOnly⟩ := rfl

/-- Which callers enter the handler of `auth.token.create`. -/
theorem dispatch_tokenCreate_ok_iff {cap : Option String} {st : FileStore}
    {subject : Subject core} :
    (dispatch X core env.clock env.guardNow cap ⟨"auth.token.create", some "auth.admin", .denyOnly⟩
        st).2.2 = .ok subject ↔
      ∃ keyId rec, Authentic X env.clock.expiry cap st.snap keyId rec ∧
        "auth.admin" ∈ rec.scopes ∧ subject = rec.subject core := by
  have hverify : verify X core env.clock cap "auth.token.create" st
      = verifyAuthenticated X core env.clock cap "auth.token.create" st := rfl
  rw [dispatch_ok_iff, hverify, verifyAuthenticated_ok_iff]
  constructor
  · rintro ⟨⟨keyId, rec, hauth, rfl⟩, hscope⟩
    exact ⟨keyId, rec, hauth, contains_subject.mp (hscope _ rfl), rfl⟩
  · rintro ⟨keyId, rec, hauth, hscope, rfl⟩
    refine ⟨⟨keyId, rec, hauth, rfl⟩, fun s hs ↦ ?_⟩
    rw [← Option.some.inj hs]
    exact contains_subject.mpr hscope

/-- The denials of `auth.token.create`. -/
theorem serve_tokenCreate_evidenced_iff (cap : Option String) (p : TokenCreateParams) (w : World) :
    (∀ result, (serve X core env cap (.tokenCreate p) w).2.2 = some result →
      Evidenced (serve X core env cap (.tokenCreate p) w).2.1 result) ↔
        ¬ Escalates X env.clock.expiry cap w.store.snap (.tokenCreate p) := by
  have hdispatch := @dispatch_evidenced X core env.clock cap env.guardNow
    ⟨"auth.token.create", some "auth.admin", .denyOnly⟩ w.store
  have hok := @dispatch_tokenCreate_ok_iff X core env cap w.store
  rw [serve_eq (find_tokenCreate p)]
  rcases h : dispatch X core env.clock env.guardNow cap
    ⟨"auth.token.create", some "auth.admin", .denyOnly⟩ w.store with ⟨st, events, d | subject⟩
  · rw [h] at hdispatch hok
    refine iff_of_true ?_ ?_
    · rintro result ⟨⟩
      exact hdispatch.1.of_error
    · rintro ⟨keyId, rec, hauth, hscope, -⟩
      cases hok.mpr ⟨keyId, rec, hauth, hscope, rfl⟩
  · rw [h] at hdispatch hok
    obtain ⟨keyId, rec, hauth, hscope, rfl⟩ := hok.mp rfl
    have hiff := tokenCreate_evidenced_iff X env.debugStrings env.readings env.bytes env.fault p
      (rec.subject core) (w.setStore st).store.snap (w.setStore st).store (hdispatch.2 _ rfl)
    have hescalates : Escalates X env.clock.expiry cap w.store.snap (.tokenCreate p) ↔
        ¬ ∀ s ∈ p.scopes, core.contains (rec.subject core).scopes s = true := by
      constructor
      · rintro ⟨keyId', rec', hauth', -, s, hs, hmissing⟩ hall
        obtain ⟨-, rfl⟩ := hauth.unique hauth'
        exact hmissing (contains_subject.mp (hall s hs))
      · intro hnot
        push Not at hnot
        obtain ⟨s, hs, hmissing⟩ := hnot
        exact ⟨keyId, rec, hauth, hscope, s, hs, fun hmem ↦ hmissing (contains_subject.mpr hmem)⟩
    rw [hescalates, not_not, ← hiff]
    constructor
    · intro hall
      exact (evidenced_map_iff Response.created).mp (hall _ rfl)
    · rintro hcreate result ⟨⟩
      exact hcreate.map Response.created

/-- **Denials leave evidence**: the verifier's for every method, those of subscriptions, and those
of requests, unless a caller that may create tokens asks for a scope it does not have. -/
theorem evidence_iff (X : TokenCrypto) (core : ScopeSets) (env : Env) (cap : Option String) :
    (∀ method st, Evidenced (verify X core env.clock cap method st).2.1
      (verify X core env.clock cap method st).2.2) ∧
    (∀ topic st, Evidenced (subscribe X core env.clock cap topic st).2.1
      (subscribe X core env.clock cap topic st).2.2) ∧
    ∀ r w, (∀ result, (serve X core env cap r w).2.2 = some result →
      Evidenced (serve X core env cap r w).2.1 result) ↔
        ¬ Escalates X env.clock.expiry cap w.store.snap r := by
  refine ⟨fun method st ↦ (verify_evidenced method st).1, subscribe_evidenced, fun r w ↦ ?_⟩
  by_cases hr : ∃ p, r = .tokenCreate p
  · obtain ⟨p, rfl⟩ := hr
    exact serve_tokenCreate_evidenced_iff cap p w
  · have hother : ∀ p, r ≠ .tokenCreate p := fun p hp ↦ hr ⟨p, hp⟩
    obtain ⟨reg, -, -, hfind⟩ := exists_registered r
    have hdispatch := @dispatch_evidenced X core env.clock cap env.guardNow reg w.store
    refine iff_of_true ?_ ?_
    · rw [serve_eq hfind]
      rcases h : dispatch X core env.clock env.guardNow cap reg w.store with
        ⟨st, events, d | subject⟩
      · rw [h] at hdispatch
        rintro result ⟨⟩
        exact hdispatch.1.of_error
      · rintro result ⟨⟩
        exact (handle_evidenced subject _ _ (w.setStore st) hother).append_left events
    · cases r with
      | tokenCreate p => exact absurd rfl (hother p)
      | _ => exact id

end Request

/-! ## A silent denial -/

/-- A capability that creates tokens and nothing else, under the zero token. -/
def minterRecord : CapabilityRecord :=
  { readerRecord with scopes := ["auth.admin"], expiresAt := none }

/-- A daemon that was claimed and has that capability. -/
def minterWorld : World where
  session :=
    { state := .disabled
      store :=
        { file := some (IdentitySnapshot.default.addCapability minterRecord).toJson
          snap := IdentitySnapshot.default.addCapability minterRecord
          pendingTouch := ∅ }
      codeFile := none }
  buckets := ∅
  jobs := .new

/-- It asks for a token that restarts services, and is refused without a trace. -/
theorem not_forall_evidence :
    ¬ ∀ (X : TokenCrypto) (core : ScopeSets) (env : Env) (cap : Option String) (r : Request)
      (w : World) (result : Except Diagnostic Response),
      (serve X core env cap r w).2.2 = some result →
      Evidenced (serve X core env cap r w).2.1 result := by
  intro h
  have hnot := @serve_tokenCreate_evidenced_iff Token.sampleCrypto .lists bareEnv
    (some Token.zeroToken.capability)
    ⟨"ci", ["server.services.write"], none⟩ minterWorld
  refine hnot.mp (h _ _ _ _ _ _) ⟨Token.zeroToken.keyId, minterRecord, ?_, by decide, ?_⟩
  · exact ⟨_, _, rfl, Token.parse_zeroToken, rfl, rfl, rfl, fun _ hexp ↦ nomatch hexp⟩
  · exact ⟨"server.services.write", List.mem_singleton.mpr rfl, by decide⟩

end Vaiexia.Api
