import Vaiexia.Audit.Event
import Vaiexia.Auth.Policy
import Vaiexia.Auth.Store
import Vaiexia.Auth.Token

/-!
# The verifier

`DaemonVerifier` of `crates/vaiexia-server/src/auth/verifier.rs`, with the audit events it emits.
Scope sets belong to `vaiexia_core`; what the daemon relies on is `ScopeSets`.

Every way to authenticate ends at `authenticate_ok_iff`: the token is live in the snapshot that was
read.
-/

namespace Vaiexia.Auth

open Vaiexia.Lib Vaiexia.Audit

/-! ## What comes from `vaiexia_core` -/

/-- `ScopeSet`: a set made from a list has the scopes of the list. -/
structure ScopeSets where
  ScopeSet : Type
  fromIter : List String → ScopeSet
  contains : ScopeSet → String → Bool
  contains_fromIter : ∀ names name, contains (fromIter names) name = true ↔ name ∈ names

/-- Scope sets as lists. -/
def ScopeSets.lists : ScopeSets where
  ScopeSet := List String
  fromIter names := names
  contains names name := names.contains name
  contains_fromIter _ _ := List.contains_iff_mem

/-- `Subject`. -/
structure Subject (core : ScopeSets) where
  id : String
  scopes : core.ScopeSet

/-- The codes of a diagnostic: those of `vaiexia_core`, and others by their text. -/
inductive Code where
  | unauthenticated
  | forbidden
  | invalidParams
  | internal
  | named (code : String)
deriving DecidableEq, Repr

/-- `Diagnostic`. -/
structure Diagnostic where
  code : Code
  message : String
deriving DecidableEq, Repr

/-! ## Authentication -/

/-- `AuthFailReason`. -/
inductive AuthFailReason where
  | badToken | revoked | expired
deriving DecidableEq, Repr

/-- `AuthFailReason::code`. -/
def AuthFailReason.code : AuthFailReason → Reason
  | badToken => .badToken
  | revoked => .revoked
  | expired => .expired

/-- `rec.expires_at.is_some_and(|exp| now >= exp)`. -/
def CapabilityRecord.expired (rec : CapabilityRecord) (now : UInt64) : Bool :=
  rec.expiresAt.any fun exp ↦ exp ≤ now

/-- The subject of a record; the id carries the key id. -/
def CapabilityRecord.subject (core : ScopeSets) (rec : CapabilityRecord) : Subject core where
  id := s!"cap:{rec.keyId}"
  scopes := core.fromIter rec.scopes

/-- The decision of `authenticate` on the snapshot it reads: the key id of the token and its
record, or an error. -/
def authenticateIn (X : TokenCrypto) (now : UInt64) (cap : Option String)
    (snap : IdentitySnapshot) :
    Except (Diagnostic × AuthFailReason) (String × CapabilityRecord) :=
  match cap with
  | none => .error (⟨.unauthenticated, "authentication required"⟩, .badToken)
  | some cap =>
      match Token.parse X cap with
      | none => .error (⟨.unauthenticated, "malformed capability token"⟩, .badToken)
      | some (keyId, secret) =>
          match snap.lookupCapability keyId with
          | none => .error (⟨.unauthenticated, "unknown capability"⟩, .badToken)
          | some rec =>
              if rec.revoked then
                .error (⟨.unauthenticated, "capability has been revoked"⟩, .revoked)
              else if !Token.verifySecret X secret rec.secretHash then
                .error (⟨.unauthenticated, "invalid capability secret"⟩, .badToken)
              else if rec.expired now then
                .error (⟨.unauthenticated, "capability has expired"⟩, .expired)
              else .ok (keyId, rec)

/-- The readings of the clock during a verification: for the expiry, for the time of last use, and
for the event. -/
structure Clock where
  expiry : UInt64
  touch : UInt64
  event : UInt64

/-- `DaemonVerifier::authenticate`. -/
def authenticate (X : TokenCrypto) (core : ScopeSets) (clock : Clock) (cap : Option String)
    (st : FileStore) : FileStore × Except (Diagnostic × AuthFailReason) (Subject core) :=
  match authenticateIn X clock.expiry cap st.snap with
  | .error e => (st, .error e)
  | .ok (keyId, rec) => (st.touchLastUsed keyId clock.touch, .ok (rec.subject core))

/-! ## Attribution -/

/-- `cap_key_id`: the key id in the id of a subject that authenticated with a capability. -/
def capKeyId {core : ScopeSets} (subject : Subject core) : Option String :=
  ("cap:".toList.isPrefixOf? subject.id.toList).map String.ofList

/-- The account of a subject's capability, or the id of the subject. -/
def ownerSubjectId {core : ScopeSets} (subject : Subject core) (snap : IdentitySnapshot) :
    String :=
  match (capKeyId subject).bind snap.lookupCapability with
  | some rec => rec.subjectId
  | none => subject.id

/-- `DaemonVerifier::human_subject_id`. -/
def humanSubjectId {core : ScopeSets} (subject : Subject core) (snap : IdentitySnapshot) :
    String := ownerSubjectId subject snap

/-- The id of an authenticated subject carries the key id of its record. -/
@[simp] theorem capKeyId_subject (core : ScopeSets) (rec : CapabilityRecord) :
    capKeyId (rec.subject core) = some rec.keyId := by
  have hprefix : ∀ before after : List Char,
      before.isPrefixOf? (before ++ after) = some after := by
    intro before after
    induction before with
    | nil => cases after <;> rfl
    | cons c before ih => simp [List.isPrefixOf?, ih]
  have hid : (rec.subject core).id.toList = "cap:".toList ++ rec.keyId.toList :=
    String.toList_append
  rw [capKeyId, hid, hprefix, Option.map_some, String.ofList_toList]

/-- The account of an authenticated subject, as long as its record can be found. -/
theorem ownerSubjectId_subject (core : ScopeSets) (rec : CapabilityRecord)
    (snap : IdentitySnapshot) :
    ownerSubjectId (rec.subject core) snap =
      match snap.lookupCapability rec.keyId with
      | some r => r.subjectId
      | none => s!"cap:{rec.keyId}" := by
  rw [ownerSubjectId, capKeyId_subject]
  rfl

/-- The key id of the presented token goes into the event, if it has one. -/
def withTokenKeyId (cap : Option String) (ev : AuditEvent) : AuditEvent :=
  match cap.bind Token.parseKeyId with
  | some keyId => ev.withCapKeyId keyId
  | none => ev

/-! ## Methods and topics -/

/-- `DaemonVerifier::anonymous_subject`. -/
def anonymousSubject (core : ScopeSets) : Subject core where
  id := "anonymous"
  scopes := core.fromIter []

/-- `DaemonVerifier::verify_authenticated`. -/
def verifyAuthenticated (X : TokenCrypto) (core : ScopeSets) (clock : Clock)
    (cap : Option String) (method : String) (st : FileStore) :
    FileStore × List AuditEvent × Except Diagnostic (Subject core) :=
  match authenticate X core clock cap st with
  | (st, .ok subject) =>
      let human := humanSubjectId subject st.snap
      let ev := (AuditEvent.new clock.event .authDecision .allow human).withMethod method
      (st, [withTokenKeyId cap (ev.withReason .ok)], .ok subject)
  | (st, .error (e, reason)) =>
      let ev := (AuditEvent.new clock.event .authDecision .deny "anonymous").withMethod method
      (st, [withTokenKeyId cap (ev.withReason reason.code)], .error e)

/-- `DaemonVerifier::verify`. -/
def verify (X : TokenCrypto) (core : ScopeSets) (clock : Clock) (cap : Option String)
    (method : String) (st : FileStore) :
    FileStore × List AuditEvent × Except Diagnostic (Subject core) :=
  match methodRequirement method with
  | none => verifyAuthenticated X core clock cap method st
  | some .anonymous => (st, [], .ok (anonymousSubject core))
  | some .authenticated | some (.scope _) => verifyAuthenticated X core clock cap method st

/-- `DaemonVerifier::verify_topic`. -/
def verifyTopic (X : TokenCrypto) (core : ScopeSets) (clock : Clock) (cap : Option String)
    (topic : String) (st : FileStore) :
    FileStore × List AuditEvent × Except Diagnostic (Subject core) :=
  match authenticate X core clock cap st with
  | (st, .error (e, reason)) =>
      let ev := (AuditEvent.new clock.event .topicDecision .deny "anonymous").withTopic topic
      (st, [withTokenKeyId cap (ev.withReason reason.code)], .error e)
  | (st, .ok subject) =>
      let human := humanSubjectId subject st.snap
      let ev (decision : AuditDecision) :=
        (AuditEvent.new clock.event .topicDecision decision human).withTopic topic
      match topicScope topic with
      | none =>
          (st, [(ev .deny).withReason .unknownTopic],
            .error ⟨.forbidden, s!"no subscription policy for topic {topic}"⟩)
      | some scope =>
          if !core.contains subject.scopes scope then
            (st, [(ev .deny).withReason .missingScope],
              .error ⟨.forbidden, s!"missing scope {scope}"⟩)
          else (st, [(ev .allow).withReason .ok], .ok subject)

/-! ## What authentication means -/

/-- The token is that of a record of the snapshot that is neither revoked nor expired. -/
def Authentic (X : TokenCrypto) (now : UInt64) (cap : Option String) (snap : IdentitySnapshot)
    (keyId : String) (rec : CapabilityRecord) : Prop :=
  ∃ token secret, cap = some token ∧ Token.parse X token = some (keyId, secret) ∧
    snap.lookupCapability keyId = some rec ∧ rec.revoked = false ∧
    rec.secretHash = X.blake3 secret ∧ ∀ exp, rec.expiresAt = some exp → now < exp

theorem CapabilityRecord.expired_eq_false {rec : CapabilityRecord} {now : UInt64} :
    rec.expired now = false ↔ ∀ exp, rec.expiresAt = some exp → now < exp := by
  unfold expired
  cases rec.expiresAt <;> simp

section Authentic

variable {X : TokenCrypto} {core : ScopeSets} {clock : Clock} {now : UInt64} {cap : Option String}

/-- **`authenticate` decides** whether the token is authentic. -/
theorem authenticateIn_ok_iff {snap : IdentitySnapshot} {keyId : String}
    {rec : CapabilityRecord} :
    authenticateIn X now cap snap = .ok (keyId, rec) ↔ Authentic X now cap snap keyId rec := by
  constructor
  · intro h
    unfold authenticateIn at h
    split at h
    · cases h
    · rename_i token
      split at h
      · cases h
      · rename_i keyId' secret hparse
        split at h
        · cases h
        · rename_i rec' hlookup
          split at h
          · cases h
          · rename_i hrevoked
            split at h
            · cases h
            · rename_i hsecret
              split at h
              · cases h
              · rename_i hexpired
                obtain ⟨rfl, rfl⟩ := Prod.mk.inj (Except.ok.inj h)
                rw [Bool.not_eq_true] at hrevoked hexpired
                have hhash : rec'.secretHash = X.blake3 secret := by simpa using hsecret
                exact ⟨token, secret, rfl, hparse, hlookup, hrevoked, hhash,
                  CapabilityRecord.expired_eq_false.mp hexpired⟩
  · rintro ⟨token, secret, rfl, hparse, hlookup, hrevoked, hsecret, hexpiry⟩
    have hverify := Token.verifySecret_iff.mpr hsecret
    have hexpired := CapabilityRecord.expired_eq_false.mpr hexpiry
    simp [authenticateIn, hparse, hlookup, hrevoked, hverify, hexpired]

/-- What `authenticate` does, by its decision. -/
theorem authenticate_cases (X : TokenCrypto) (core : ScopeSets) (clock : Clock)
    (cap : Option String) (st : FileStore) :
    (∃ keyId rec, Authentic X clock.expiry cap st.snap keyId rec ∧
      authenticate X core clock cap st
        = (st.touchLastUsed keyId clock.touch, .ok (rec.subject core))) ∨
    ∃ e, (∀ keyId rec, ¬ Authentic X clock.expiry cap st.snap keyId rec) ∧
      authenticate X core clock cap st = (st, .error e) := by
  rcases h : authenticateIn X clock.expiry cap st.snap with e | ⟨keyId, rec⟩
  · refine .inr ⟨e, fun keyId rec hauth ↦ ?_, by simp only [authenticate, h]⟩
    rw [authenticateIn_ok_iff.mpr hauth] at h
    cases h
  · exact .inl ⟨keyId, rec, authenticateIn_ok_iff.mp h, by simp only [authenticate, h]⟩

/-- Authentication publishes nothing. -/
theorem authenticate_snap (X : TokenCrypto) (core : ScopeSets) (clock : Clock)
    (cap : Option String) (st : FileStore) :
    (authenticate X core clock cap st).1.snap = st.snap := by
  rcases authenticate_cases X core clock cap st with ⟨keyId, rec, -, h⟩ | ⟨e, -, h⟩
  · rw [h]
    rfl
  · rw [h]

theorem verify_snap (X : TokenCrypto) (core : ScopeSets) (clock : Clock) (cap : Option String)
    (method : String) (st : FileStore) :
    (verify X core clock cap method st).1.snap = st.snap := by
  have hauth : (verifyAuthenticated X core clock cap method st).1.snap = st.snap := by
    have hsnap := authenticate_snap X core clock cap st
    unfold verifyAuthenticated
    split
    · rename_i h
      rw [h] at hsnap
      exact hsnap
    · rename_i h
      rw [h] at hsnap
      exact hsnap
  unfold verify
  split
  · exact hauth
  · rfl
  · exact hauth
  · exact hauth

/-- At most one record makes a token authentic. -/
theorem Authentic.unique {snap : IdentitySnapshot} {keyId keyId' : String}
    {rec rec' : CapabilityRecord} (h : Authentic X now cap snap keyId rec)
    (h' : Authentic X now cap snap keyId' rec') : keyId = keyId' ∧ rec = rec' := by
  have heq := (authenticateIn_ok_iff.mpr h).symm.trans (authenticateIn_ok_iff.mpr h')
  exact Prod.mk.inj (Except.ok.inj heq)

/-- What `authenticate` hands on. -/
theorem authenticate_ok_iff {st : FileStore} {subject : Subject core} :
    (authenticate X core clock cap st).2 = .ok subject ↔
      ∃ keyId rec, Authentic X clock.expiry cap st.snap keyId rec ∧ subject = rec.subject core := by
  rcases authenticate_cases X core clock cap st with ⟨keyId, rec, hauth, h⟩ | ⟨e, hno, h⟩
  · rw [h]
    constructor
    · intro heq
      exact ⟨keyId, rec, hauth, (Except.ok.inj heq).symm⟩
    · rintro ⟨keyId', rec', hauth', rfl⟩
      obtain ⟨-, rfl⟩ := hauth.unique hauth'
      rfl
  · rw [h]
    constructor
    · intro heq
      cases heq
    · rintro ⟨keyId, rec, hauth, -⟩
      exact absurd hauth (hno keyId rec)

/-- What the verifier hands on of an authenticated caller. -/
theorem verifyAuthenticated_ok_iff {method : String} {st : FileStore} {subject : Subject core} :
    (verifyAuthenticated X core clock cap method st).2.2 = .ok subject ↔
      ∃ keyId rec, Authentic X clock.expiry cap st.snap keyId rec ∧ subject = rec.subject core := by
  rw [← authenticate_ok_iff]
  unfold verifyAuthenticated
  split
  · rename_i h
    rw [h]
    simp only [Except.ok.injEq]
  · rename_i h
    rw [h]
    exact iff_of_false nofun nofun

/-- A subject holds the scopes of its record. -/
@[simp] theorem contains_subject {rec : CapabilityRecord} {scope : String} :
    core.contains (rec.subject core).scopes scope = true ↔ scope ∈ rec.scopes :=
  core.contains_fromIter rec.scopes scope

/-- **`verify_topic`** lets a caller in exactly when the token is authentic and its record has the
scope of the topic. -/
theorem verifyTopic_ok_iff {topic : String} {st : FileStore} {subject : Subject core} :
    (verifyTopic X core clock cap topic st).2.2 = .ok subject ↔
      ∃ keyId rec scope, Authentic X clock.expiry cap st.snap keyId rec ∧
        topicScope topic = some scope ∧ scope ∈ rec.scopes ∧ subject = rec.subject core := by
  unfold verifyTopic
  rcases authenticate_cases X core clock cap st with ⟨keyId, rec, hauth, h⟩ | ⟨e, hno, h⟩
  · rw [h]
    rcases htopic : topicScope topic with _ | scope
    · simp
    · simp only [Bool.not_eq_true', ← Bool.not_eq_true, contains_subject]
      constructor
      · intro heq
        split at heq
        · cases heq
        · rename_i hscope
          exact ⟨keyId, rec, scope, hauth, rfl, not_not.mp hscope, (Except.ok.inj heq).symm⟩
      · rintro ⟨keyId', rec', scope', hauth', htopic', hscope, rfl⟩
        obtain ⟨-, rfl⟩ := hauth.unique hauth'
        obtain rfl := Option.some.inj htopic'
        rw [if_neg (not_not.mpr hscope)]
  · rw [h]
    constructor
    · intro heq
      cases heq
    · rintro ⟨keyId, rec, -, hauth, -⟩
      exact absurd hauth (hno keyId rec)

end Authentic

end Vaiexia.Auth
