import Mathlib.Logic.Relation
import Vaiexia.Api.Serve

/-!
# Who a request is attributed to

A request that authenticated carries `cap:<key id>`, and the account is looked up again at several
points of verifier, guard and handler, while other calls change the store.  `Views` are the
snapshots that one request reads, and `Meanwhile` what may happen between two of them.

At every point the account is that of the record at the time of authentication, unless the record
has been pruned: then it is the handle.  So a request leaves the account behind, and never the
handle, exactly if the record is still there at each lookup (`attribution_iff`).
-/

namespace Vaiexia.Api

open Vaiexia.Lib Vaiexia.Audit Vaiexia.Auth Vaiexia.Backend

/-! ## Between two readings -/

/-- What other calls make of the published snapshot, when none adds a capability under the key
id. -/
abbrev Meanwhile (k : String) : IdentitySnapshot → IdentitySnapshot → Prop :=
  Relation.ReflTransGen fun s s' ↦
    ∃ (change : Change) (n : Nat), ¬ change.Adds k ∧ change.apply s = .ok (s', n)

/-- A prune has removed the record under the key id, which was revoked or had expired. -/
structure Pruned (k : String) (s₀ s : IdentitySnapshot) : Prop where
  absent : s.lookupCapability k = none
  removed : ∃ mid now grace rec, Meanwhile k s₀ mid ∧ mid.lookupCapability k = some rec ∧
    removable now grace rec = true ∧ Meanwhile k (mid.prune now grace).1 s

section Meanwhile

variable {k : String} {s₀ s s' : IdentitySnapshot} {rec : CapabilityRecord}

theorem Pruned.meanwhile (h : Pruned k s₀ s) (hmove : Meanwhile k s s') : Pruned k s₀ s' := by
  induction hmove with
  | refl => exact h
  | tail _ hstep ih =>
      obtain ⟨change, n, hadds, happly⟩ := hstep
      obtain ⟨mid, now, grace, rec, hbefore, hrec, hremove, hafter⟩ := ih.removed
      refine ⟨?_, mid, now, grace, rec, hbefore, hrec, hremove,
        hafter.tail ⟨change, n, hadds, happly⟩⟩
      refine Option.eq_none_iff_forall_not_mem.mpr fun rec' hk' ↦ ?_
      rcases Change.apply_capability happly hk' with ⟨hadd, hkey⟩ | ⟨old, hold, -⟩
      · rw [hadd] at hadds
        exact hadds hkey
      · rw [ih.absent] at hold
        cases hold

/-- **The record stays**, aged, until it is pruned. -/
theorem Meanwhile.record (hmove : Meanwhile k s₀ s) (hk : s₀.lookupCapability k = some rec) :
    (∃ rec', s.lookupCapability k = some rec' ∧ rec.Ages rec') ∨ Pruned k s₀ s := by
  induction hmove with
  | refl => exact .inl ⟨rec, hk, .refl rec⟩
  | tail hbefore hstep ih =>
      rcases ih with ⟨rec', hk', hages⟩ | hpruned
      · obtain ⟨change, n, hadds, happly⟩ := hstep
        rcases Change.apply_kept happly hadds hk' with
          ⟨rec'', hk'', hages', -⟩ | ⟨hnone, now, grace, rfl, hremove⟩
        · exact .inl ⟨rec'', hk'', hages.trans hages'⟩
        · refine .inr ⟨hnone, _, now, grace, rec', hbefore, hk', hremove, ?_⟩
          rw [congrArg Prod.fst (Except.ok.inj happly)]
      · exact .inr (hpruned.meanwhile (.single hstep))

end Meanwhile

/-- Every record is under its own key id. -/
def WellKeyed (s : IdentitySnapshot) : Prop :=
  ∀ k rec, s.lookupCapability k = some rec → rec.keyId = k

/-- A store that was never written is well keyed. -/
theorem wellKeyed_default : WellKeyed .default := fun _ _ h ↦ nomatch h

/-- And so is what any call makes of one that is. -/
theorem WellKeyed.apply {s s' : IdentitySnapshot} (h : WellKeyed s) {change : Change} {n : Nat}
    (happly : change.apply s = .ok (s', n)) : WellKeyed s' := by
  intro k rec' hk'
  rcases Change.apply_capability happly hk' with ⟨-, hkey⟩ | ⟨rec, hk, hages⟩
  · exact hkey
  · rw [hages.keyId_eq]
    exact h k rec hk

/-! ## The readings of a request -/

/-- The snapshots that a request reads: to authenticate, to attribute the verifier's event, in the
guard, and in the handler. -/
structure Views where
  authenticated : IdentitySnapshot
  verified : IdentitySnapshot
  guarded : IdentitySnapshot
  resolved : IdentitySnapshot
  reported : IdentitySnapshot

/-- They are read in this order. -/
structure Views.InOrder (k : String) (v : Views) : Prop where
  verified : Meanwhile k v.authenticated v.verified
  guarded : Meanwhile k v.verified v.guarded
  resolved : Meanwhile k v.guarded v.resolved
  reported : Meanwhile k v.resolved v.reported

/-- The snapshot in which the handler of a request looks up the account for its event. -/
def Request.reads (v : Views) : Request → IdentitySnapshot
  | .tokenCreate _ => v.resolved
  | _ => v.reported

/-- The verifier's event for a caller that it lets through. -/
def allowEvent (now : UInt64) (cap : Option String) (method human : String) : AuditEvent :=
  withTokenKeyId cap
    (((AuditEvent.new now .authDecision .allow human).withMethod method).withReason .ok)

/-- The events of the request of an authenticated caller, each with the snapshot in which its
subject was looked up. -/
def trail (X : TokenCrypto) {core : ScopeSets} (env : Env) (cap : Option String) (reg : Registered)
    (subject : Subject core) (v : Views) (w : World) (r : Request) :
    List (IdentitySnapshot × AuditEvent) :=
  let verified := (v.verified,
    allowEvent env.clock.event cap reg.method (humanSubjectId subject v.verified))
  match reg.guard core env.guardNow v.guarded subject with
  | (events, .error _) => verified :: events.map (v.guarded, ·)
  | (events, .ok ()) =>
      let handled := (handle X env subject v.resolved v.reported w r).2.1
      verified :: (events.map (v.guarded, ·) ++ handled.map (r.reads v, ·))

/-- The event of an authenticated caller's subscription. -/
def topicEvent {core : ScopeSets} (now : UInt64) (topic human : String) (subject : Subject core) :
    AuditEvent :=
  let ev (decision : AuditDecision) :=
    (AuditEvent.new now .topicDecision decision human).withTopic topic
  match topicScope topic with
  | none => (ev .deny).withReason .unknownTopic
  | some scope =>
      if !core.contains subject.scopes scope then (ev .deny).withReason .missingScope
      else (ev .allow).withReason .ok

/-- The readings of a request while nothing else changes the store. -/
def quietViews (env : Env) (w : World) (r : Request) : Views where
  authenticated := w.store.snap
  verified := w.store.snap
  guarded := w.store.snap
  resolved := w.store.snap
  reported := quietReport env w r

section Quiet

variable {X : TokenCrypto} {core : ScopeSets} {env : Env} {cap : Option String}

/-- What the verifier does with an authenticated caller. -/
theorem verify_authenticated {method : String} {st : FileStore} {k : String}
    {rec : CapabilityRecord} (hmethod : methodRequirement method ≠ some .anonymous)
    (hauth : Authentic X env.clock.expiry cap st.snap k rec) :
    verify X core env.clock cap method st =
      (st.touchLastUsed k env.clock.touch,
        [allowEvent env.clock.event cap method (humanSubjectId (rec.subject core) st.snap)],
        .ok (rec.subject core)) := by
  have hverify : verify X core env.clock cap method st
      = verifyAuthenticated X core env.clock cap method st := by
    unfold verify
    split
    · rfl
    · rename_i h
      exact absurd h hmethod
    · rfl
    · rfl
  have hok := authenticateIn_ok_iff.mpr hauth
  rw [hverify]
  simp only [verifyAuthenticated, authenticate, hok]
  rfl

/-- **A quiet request emits its trail.** -/
theorem serve_events {reg : Registered} {r : Request}
    (hfind : (service.find? fun reg ↦ reg.method == r.method) = some reg)
    (hmethod : methodRequirement reg.method ≠ some .anonymous) {w : World} {k : String}
    {rec : CapabilityRecord} (hauth : Authentic X env.clock.expiry cap w.store.snap k rec) :
    let touched := w.setStore (w.store.touchLastUsed k env.clock.touch)
    (serve X core env cap r w).2.1 =
      (trail X env cap reg (rec.subject core) (quietViews env touched r) touched
        r).map Prod.snd := by
  intro touched
  have hverify : verify X core env.clock cap reg.method w.store = _ :=
    verify_authenticated hmethod hauth
  have hsnap : touched.store.snap = w.store.snap := rfl
  have htouch : (w.store.touchLastUsed k env.clock.touch).snap = w.store.snap := rfl
  have hpaired : ∀ (s : IdentitySnapshot) (events : List AuditEvent),
      (events.map (s, ·)).map Prod.snd = events := by simp
  rcases hguard : reg.guard core env.guardNow w.store.snap (rec.subject core) with
    ⟨events, e | ⟨⟩⟩
  · simp only [serve, hfind, dispatch, hverify, trail, quietViews, hsnap, htouch, hguard]
    rw [List.map_cons, hpaired]
    rfl
  · simp only [serve, hfind, dispatch, hverify, trail, quietViews, hsnap, htouch, hguard]
    rw [List.map_cons, List.map_append, hpaired, hpaired]
    rfl

/-- A quiet subscription emits its event. -/
theorem subscribe_events {topic : String} {st : FileStore} {k : String} {rec : CapabilityRecord}
    (hauth : Authentic X env.clock.expiry cap st.snap k rec) :
    (subscribe X core env.clock cap topic st).2.1 =
      [topicEvent env.clock.event topic (humanSubjectId (rec.subject core) st.snap)
        (rec.subject core)] := by
  have hok := authenticateIn_ok_iff.mpr hauth
  have htouch : (st.touchLastUsed k env.clock.touch).snap = st.snap := rfl
  rcases htopic : topicScope topic with _ | scope
  · simp only [subscribe, verifyTopic, authenticate, hok, topicEvent, htouch, htopic]
  · rcases hscope : core.contains (rec.subject core).scopes scope with _ | _ <;>
      simp [subscribe, verifyTopic, authenticate, hok, topicEvent, htouch, htopic, hscope]

end Quiet

/-! ## Every identity is the account's -/

/-- An identity that was looked up in `s`: the account of the record, which is still there, or the
handle, because the record has been pruned. -/
def Attributed (k : String) (rec : CapabilityRecord) (s₀ s : IdentitySnapshot)
    (identity : String) : Prop :=
  (identity = rec.subjectId ∧ (s.lookupCapability k).isSome = true) ∨
    identity = s!"cap:{k}" ∧ Pruned k s₀ s

theorem Meanwhile.attributed {k : String} {s₀ s : IdentitySnapshot} {rec : CapabilityRecord}
    (core : ScopeSets) (hmove : Meanwhile k s₀ s) (hk : s₀.lookupCapability k = some rec)
    (hkey : rec.keyId = k) : Attributed k rec s₀ s (ownerSubjectId (rec.subject core) s) := by
  rw [ownerSubjectId_subject, hkey]
  rcases hmove.record hk with ⟨rec', hk', hages⟩ | hpruned
  · rw [hk']
    exact .inl ⟨hages.subjectId_eq, by rw [hk']; rfl⟩
  · rw [hpruned.absent]
    exact .inr ⟨rfl, hpruned⟩

section Subjects

variable {X : TokenCrypto} {core : ScopeSets} {env : Env}

@[simp] theorem subject_withTokenKeyId (cap : Option String) (ev : AuditEvent) :
    (withTokenKeyId cap ev).subject = ev.subject := by
  unfold withTokenKeyId
  split <;> rfl

@[simp] theorem subject_subjectEvent (now : UInt64) (snap : IdentitySnapshot)
    (subject : Subject core) (kind : AuditKind) (decision : AuditDecision) :
    (subjectEvent now snap subject kind decision).subject
      = sanitize (ownerSubjectId subject snap) := by
  unfold subjectEvent subjectLabel
  dsimp only
  split <;> rfl

theorem guard_subject (reg : Registered) (now : UInt64) (snap : IdentitySnapshot)
    (subject : Subject core) :
    ∀ ev ∈ (reg.guard core now snap subject).1,
      ev.subject = sanitize (ownerSubjectId subject snap) := by
  unfold Registered.guard
  dsimp only
  split
  · intro ev hmem
    rw [List.mem_singleton.mp hmem]
    simp [scopedEvent]
  · split
    · intro ev hmem
      rw [List.mem_singleton.mp hmem]
      simp [scopedEvent]
    · exact fun ev hmem ↦ nomatch hmem

theorem runServiceMutation_subject (be : SystemBackend) (clock : EventClock) (elapsed : Bool)
    (snap : IdentitySnapshot) (subject : Subject core) (verb : ServiceVerb) (name : String) :
    ∀ ev ∈ (runServiceMutation be clock elapsed snap subject verb name).1,
      ev.subject = sanitize (ownerSubjectId subject snap) := by
  unfold runServiceMutation
  split
  · exact fun ev hmem ↦ nomatch hmem
  · dsimp only
    split
    · intro ev hmem
      rw [List.mem_singleton.mp hmem]
      simp
    · split <;>
      · intro ev hmem
        rw [List.mem_singleton.mp hmem]
        simp

/-- The events of a package mutation are attributed in the second snapshot, and its job in the
first. -/
theorem runPackageMutation_subject (be : SystemBackend) (clock : EventClock) (id : String)
    (jobSnap eventSnap : IdentitySnapshot) (subject : Subject core) (verb : PackageVerb)
    (name : String) (inner : RegistryInner) :
    (∀ ev ∈ (runPackageMutation be clock id jobSnap eventSnap subject verb name inner).2.2.1,
      ev.subject = sanitize (ownerSubjectId subject eventSnap)) ∧
    ∀ job,
      (runPackageMutation be clock id jobSnap eventSnap subject verb name inner).2.1 = some job →
      job.subject = ownerSubjectId subject jobSnap := by
  have hevent : ∀ ev (decision : AuditDecision) (method detail : String) (us : UInt64),
      ev ∈ [(((subjectEvent clock.now eventSnap subject .mutation decision).withMethod
        method).withDetail detail).withLatencyUs us] →
      ev.subject = sanitize (ownerSubjectId subject eventSnap) := by
    intro ev decision method detail us hmem
    rw [List.mem_singleton.mp hmem]
    simp
  unfold runPackageMutation
  dsimp only
  split
  · exact ⟨fun ev ↦ hevent ev _ _ _ _, fun _ h ↦ nomatch h⟩
  · split
    · exact ⟨fun ev ↦ hevent ev _ _ _ _, fun _ h ↦ nomatch h⟩
    · split
      · exact ⟨fun ev ↦ hevent ev _ _ _ _, fun _ h ↦ nomatch h⟩
      · refine ⟨fun ev ↦ hevent ev _ _ _ _, ?_⟩
        rintro job ⟨⟩
        rfl

/-- A job's event has the subject that the job was given. -/
theorem PackageJob.run_subject (job : PackageJob) (mgr : PackageManager) (clock : EventClock) :
    (job.run mgr clock).1.subject = sanitize job.subject := by
  unfold PackageJob.run
  dsimp only
  split <;> rfl

theorem tokenCreate_subject (debugStrings : List String → String) (now : Readings)
    (bytes : TokenBytes) (fault : Option StoreError) (p : TokenCreateParams)
    (subject : Subject core) (snap : IdentitySnapshot) (st : FileStore) :
    ∀ ev ∈ (tokenCreate X debugStrings now bytes fault p subject snap st).2.1,
      ev.subject = sanitize (ownerSubjectId subject snap) := by
  unfold tokenCreate
  split
  · exact fun ev hmem ↦ nomatch hmem
  · split
    · exact fun ev hmem ↦ nomatch hmem
    · dsimp only
      split
      · exact fun ev hmem ↦ nomatch hmem
      · intro ev hmem
        rw [List.mem_singleton.mp hmem]
        rfl

theorem tokenRevoke_subject (now latencyUs : UInt64) (fault : Option StoreError) (keyId : String)
    (subject : Subject core) (snap : IdentitySnapshot) (st : FileStore) :
    ∀ ev ∈ (tokenRevoke now latencyUs fault keyId subject snap st).2.1,
      ev.subject = sanitize (ownerSubjectId subject snap) := by
  unfold tokenRevoke
  dsimp only
  split <;>
  · intro ev hmem
    rw [List.mem_singleton.mp hmem]
    rfl

/-- The events of a handler for authenticated callers. -/
theorem handle_subject (subject : Subject core) (v : Views) (w : World) {r : Request}
    (hr : methodRequirement r.method ≠ some .anonymous) :
    ∀ ev ∈ (handle X env subject v.resolved v.reported w r).2.1,
      ev.subject = sanitize (ownerSubjectId subject (r.reads v)) := by
  cases r with
  | serviceMutation verb name =>
      exact runServiceMutation_subject env.backend env.event env.elapsed v.reported subject verb
        name
  | packageMutation verb name =>
      exact (runPackageMutation_subject env.backend env.event env.jobId v.resolved v.reported
        subject verb name w.jobs).1
  | bootstrapClaim p => exact absurd rfl hr
  | login p => exact absurd rfl hr
  | tokenCreate p =>
      exact tokenCreate_subject env.debugStrings env.readings env.bytes env.fault p subject
        v.resolved w.store
  | tokenRevoke keyId =>
      exact tokenRevoke_subject env.event.now env.event.latencyUs env.fault keyId subject v.reported
        w.store
  | hostInfo | servicesList | servicesStatus | packagesList | logsQuery | jobsStatus | whoami
  | tokenList => exact fun ev hmem ↦ nomatch hmem

end Subjects

/-- The event of a subscription has the subject that was looked up for it. -/
theorem topicEvent_subject {core : ScopeSets} (now : UInt64) (topic human : String)
    (subject : Subject core) : (topicEvent now topic human subject).subject = sanitize human := by
  unfold topicEvent
  dsimp only
  split
  · simp
  · split <;> simp

/-- The snapshots in which accounts are looked up. -/
def Views.lookups (v : Views) : List IdentitySnapshot :=
  [v.verified, v.guarded, v.resolved, v.reported]

/-- They are all reached from the one that authenticated. -/
theorem Views.InOrder.meanwhile {k : String} {v : Views} (h : v.InOrder k) :
    ∀ s ∈ v.lookups, Meanwhile k v.authenticated s := by
  have hguarded := h.verified.trans h.guarded
  have hresolved := hguarded.trans h.resolved
  have hreported := hresolved.trans h.reported
  intro s hs
  simp only [Views.lookups, List.mem_cons, List.not_mem_nil, or_false] at hs
  rcases hs with rfl | rfl | rfl | rfl
  · exact h.verified
  · exact hguarded
  · exact hresolved
  · exact hreported

theorem Request.reads_mem (r : Request) (v : Views) : r.reads v ∈ v.lookups := by
  cases r <;> simp [Request.reads, Views.lookups]

/-- Every event of a trail has the subject that was looked up in its snapshot. -/
theorem trail_subject {X : TokenCrypto} {core : ScopeSets} {env : Env} {cap : Option String}
    {reg : Registered} (subject : Subject core) (v : Views) (w : World) {r : Request}
    (hr : methodRequirement r.method ≠ some .anonymous) :
    ∀ e ∈ trail X env cap reg subject v w r,
      e.1 ∈ v.lookups ∧ e.2.subject = sanitize (ownerSubjectId subject e.1) := by
  have hverified : (allowEvent env.clock.event cap reg.method
      (humanSubjectId subject v.verified)).subject =
        sanitize (ownerSubjectId subject v.verified) := by
    simp [allowEvent, humanSubjectId]
  have hguard := guard_subject reg env.guardNow v.guarded subject
  have hhandle := @handle_subject X core env subject v w r hr
  have hguarded : v.guarded ∈ v.lookups := by simp [Views.lookups]
  intro e he
  unfold trail at he
  dsimp only at he
  split at he
  · rename_i events d hg
    rw [hg] at hguard
    rcases List.mem_cons.mp he with rfl | he
    · exact ⟨by simp [Views.lookups], hverified⟩
    · obtain ⟨ev, hmem, rfl⟩ := List.mem_map.mp he
      exact ⟨hguarded, hguard ev hmem⟩
  · rename_i events hg
    rw [hg] at hguard
    rcases List.mem_cons.mp he with rfl | he
    · exact ⟨by simp [Views.lookups], hverified⟩
    · rcases List.mem_append.mp he with he | he
      · obtain ⟨ev, hmem, rfl⟩ := List.mem_map.mp he
        exact ⟨hguarded, hguard ev hmem⟩
      · obtain ⟨ev, hmem, rfl⟩ := List.mem_map.mp he
        exact ⟨r.reads_mem v, hhandle ev hmem⟩

/-- An identity that is left behind is the record's, and not the handle. -/
def IsAccount (k : String) (rec : CapabilityRecord) (identity : String) : Prop :=
  identity = rec.subjectId ∧ identity ≠ s!"cap:{k}"

/-- The same of the subject of an event, which is sanitized. -/
def NamesAccount (k : String) (rec : CapabilityRecord) (ev : AuditEvent) : Prop :=
  ev.subject = sanitize rec.subjectId ∧ ev.subject ≠ sanitize s!"cap:{k}"

/-- However an identity is written, it is written as the account exactly if its record was there
when it was looked up. -/
theorem Attributed.eq_iff {β : Type} (write : String → β) {k : String} {rec : CapabilityRecord}
    {s₀ s : IdentitySnapshot} {identity : String} (h : Attributed k rec s₀ s identity) :
    (write identity = write rec.subjectId ∧ write identity ≠ write s!"cap:{k}") ↔
      write rec.subjectId ≠ write s!"cap:{k}" ∧ (s.lookupCapability k).isSome = true := by
  rcases h with ⟨rfl, hsome⟩ | ⟨rfl, hpruned⟩
  · simp [hsome]
  · simp [hpruned.absent]

theorem Attributed.namesAccount_iff {k : String} {rec : CapabilityRecord} {s₀ s : IdentitySnapshot}
    {identity : String} (h : Attributed k rec s₀ s identity) {ev : AuditEvent}
    (hsubject : ev.subject = sanitize identity) :
    NamesAccount k rec ev ↔
      sanitize rec.subjectId ≠ sanitize s!"cap:{k}" ∧ (s.lookupCapability k).isSome = true := by
  rw [NamesAccount, hsubject]
  exact h.eq_iff sanitize

/-- The first event of a trail is the verifier's. -/
theorem mem_trail_verified (X : TokenCrypto) {core : ScopeSets} (env : Env) (cap : Option String)
    (reg : Registered) (subject : Subject core) (v : Views) (w : World) (r : Request) :
    (v.verified, allowEvent env.clock.event cap reg.method (humanSubjectId subject v.verified)) ∈
      trail X env cap reg subject v w r := by
  unfold trail
  dsimp only
  split <;> exact List.mem_cons_self

/-- **Attribution.**  Whatever other calls do between the readings of a request that authenticated
with the capability `k`: every event of the request or of a subscription, every capability that it
mints and every job that it starts has the identity that `k`'s record had then, unless the record
had been pruned when the identity was looked up; then it has the handle.

So they have the account's identity, and never the handle, exactly if the record is in the store at
each of these lookups, and the account's identity is not the handle itself. -/
theorem attribution_iff (X : TokenCrypto) (core : ScopeSets) (env : Env) (cap : Option String)
    {k : String} {rec : CapabilityRecord} {v : Views}
    (hauth : Authentic X env.clock.expiry cap v.authenticated k rec)
    (hkeyed : WellKeyed v.authenticated) (hviews : v.InOrder k) :
    (∀ reg w r, methodRequirement r.method ≠ some .anonymous →
      (∀ e ∈ trail X env cap reg (rec.subject core) v w r,
        ∃ identity, Attributed k rec v.authenticated e.1 identity ∧
          e.2.subject = sanitize identity) ∧
      ((∀ e ∈ trail X env cap reg (rec.subject core) v w r, NamesAccount k rec e.2) ↔
        sanitize rec.subjectId ≠ sanitize s!"cap:{k}" ∧
          ∀ e ∈ trail X env cap reg (rec.subject core) v w r,
            (e.1.lookupCapability k).isSome = true)) ∧
    (∀ topic,
      NamesAccount k rec (topicEvent env.clock.event topic
        (humanSubjectId (rec.subject core) v.verified) (rec.subject core)) ↔
      sanitize rec.subjectId ≠ sanitize s!"cap:{k}" ∧
        (v.verified.lookupCapability k).isSome = true) ∧
    (∀ p w st' events resp,
      tokenCreate X env.debugStrings env.readings env.bytes env.fault p (rec.subject core)
        v.resolved w = (st', events, .ok resp) →
      ∃ minted, st'.snap = w.snap.addCapability minted ∧
        Attributed k rec v.authenticated v.resolved minted.subjectId ∧
        (IsAccount k rec minted.subjectId ↔
          rec.subjectId ≠ s!"cap:{k}" ∧ (v.resolved.lookupCapability k).isSome = true)) ∧
    ∀ verb name inner job,
      (runPackageMutation env.backend env.event env.jobId v.resolved v.reported (rec.subject core)
        verb name inner).2.1 = some job →
      Attributed k rec v.authenticated v.resolved job.subject ∧
        (IsAccount k rec job.subject ↔
          rec.subjectId ≠ s!"cap:{k}" ∧ (v.resolved.lookupCapability k).isSome = true) ∧
        ∀ mgr clock, NamesAccount k rec (job.run mgr clock).1 ↔
          sanitize rec.subjectId ≠ sanitize s!"cap:{k}" ∧
            (v.resolved.lookupCapability k).isSome = true := by
  obtain ⟨token, secret, -, -, hlookup, -⟩ := hauth
  have hkey := hkeyed k rec hlookup
  have hattributed : ∀ s ∈ v.lookups,
      Attributed k rec v.authenticated s (ownerSubjectId (rec.subject core) s) := fun s hs ↦
    (hviews.meanwhile s hs).attributed core hlookup hkey
  have hverified : v.verified ∈ v.lookups := by simp [Views.lookups]
  have hresolved : v.resolved ∈ v.lookups := by simp [Views.lookups]
  refine ⟨fun reg w r hr ↦ ?_, fun topic ↦ ?_, fun p w st' events resp hcreate ↦ ?_,
    fun verb name inner job hjob ↦ ?_⟩
  · have htrail := @trail_subject X core env cap reg (rec.subject core) v w r hr
    have hiff : ∀ e ∈ trail X env cap reg (rec.subject core) v w r, (NamesAccount k rec e.2 ↔
        sanitize rec.subjectId ≠ sanitize s!"cap:{k}" ∧
          (e.1.lookupCapability k).isSome = true) := fun e he ↦
      (hattributed e.1 (htrail e he).1).namesAccount_iff (htrail e he).2
    refine ⟨fun e he ↦ ⟨_, hattributed e.1 (htrail e he).1, (htrail e he).2⟩, ?_, ?_⟩
    · intro hnames
      have hfirst := mem_trail_verified X env cap reg (rec.subject core) v w r
      exact ⟨((hiff _ hfirst).mp (hnames _ hfirst)).1, fun e he ↦
        ((hiff e he).mp (hnames e he)).2⟩
    · rintro ⟨hdiffer, hpresent⟩ e he
      exact (hiff e he).mpr ⟨hdiffer, hpresent e he⟩
  · exact (hattributed v.verified hverified).namesAccount_iff (topicEvent_subject _ _ _ _)
  · rcases tokenCreate_cases X env.debugStrings env.readings env.bytes env.fault p
      (rec.subject core) v.resolved w with ⟨_, _, d, h, -⟩ | ⟨_, _, _, h, -, hsnap⟩
    · rw [hcreate] at h
      cases h
    · rw [hcreate] at h
      obtain rfl := congrArg Prod.fst h
      exact ⟨_, hsnap, hattributed v.resolved hresolved,
        (hattributed v.resolved hresolved).eq_iff id⟩
  · have hsubject := (runPackageMutation_subject env.backend env.event env.jobId v.resolved
      v.reported (rec.subject core) verb name inner).2 job hjob
    have hjobs : Attributed k rec v.authenticated v.resolved job.subject := by
      rw [hsubject]
      exact hattributed v.resolved hresolved
    exact ⟨hjobs, hjobs.eq_iff id,
      fun mgr clock ↦ hjobs.namesAccount_iff (job.run_subject mgr clock)⟩

/-! ## A prune between two readings -/

/-- The reader's capability, revoked. -/
def readerRevoked : IdentitySnapshot :=
  IdentitySnapshot.default.addCapability { readerRecord with revoked := true }

/-- After the verifier's event, the reader's capability is revoked and pruned. -/
def prunedViews : Views where
  authenticated := readerStore.snap
  verified := readerStore.snap
  guarded := (readerRevoked.prune 1700000000 86400).1
  resolved := (readerRevoked.prune 1700000000 86400).1
  reported := (readerRevoked.prune 1700000000 86400).1

theorem prunedViews_inOrder : prunedViews.InOrder Token.zeroToken.keyId where
  verified := .refl
  guarded := by
    have hrevoke : ∃ (change : Change) (n : Nat), ¬ change.Adds Token.zeroToken.keyId ∧
        change.apply readerStore.snap = .ok (readerRevoked, n) :=
      ⟨.revokeCapability Token.zeroToken.keyId, 0, fun h ↦ h, rfl⟩
    exact (Relation.ReflTransGen.single hrevoke).tail
      ⟨.prune 1700000000 86400, _, fun h ↦ h, rfl⟩
  resolved := .refl
  reported := .refl

theorem prunedViews_authentic : Authentic Token.sampleCrypto bareEnv.clock.expiry
    (some Token.zeroToken.capability) prunedViews.authenticated Token.zeroToken.keyId
    readerRecord := by
  refine ⟨_, _, rfl, Token.parse_zeroToken, rfl, rfl, rfl, ?_⟩
  rintro exp ⟨⟩
  decide

theorem prunedViews_wellKeyed : WellKeyed prunedViews.authenticated := by
  have hadd : Change.apply (.addCapability readerRecord) .default = .ok (readerStore.snap, 0) := rfl
  exact wellKeyed_default.apply hadd

/-- A daemon that was claimed, with the reader's store. -/
def readerWorld : World where
  session := { state := .disabled, store := readerStore, codeFile := none }
  buckets := ∅
  jobs := .new

/-- The reader's request to restart a service, which the guard refuses. -/
def readerTrail : List (IdentitySnapshot × AuditEvent) :=
  trail Token.sampleCrypto bareEnv (some Token.zeroToken.capability)
    ⟨"server.services.restart", some "server.services.write", .denyOnly⟩
    (readerRecord.subject .lists) prunedViews readerWorld
    (.serviceMutation .restart "nginx.service")

theorem readerTrail_subjects :
    readerTrail.map (fun e ↦ e.2.subject.text) = ["user:admin", "cap:aaaaaaaaaaaaaaaa"] := by
  decide +kernel

/-- The readings of a request that nothing disturbs. -/
def readerViews : Views where
  authenticated := readerStore.snap
  verified := readerStore.snap
  guarded := readerStore.snap
  resolved := readerStore.snap
  reported := readerStore.snap

/-- Its first event names the account, and its second one the handle; undisturbed, both would name
the account. -/
theorem attribution_iff_readerTrail :
    (¬ ∀ e ∈ readerTrail, NamesAccount Token.zeroToken.keyId readerRecord e.2) ∧
    ∀ e ∈ trail Token.sampleCrypto bareEnv (some Token.zeroToken.capability)
      ⟨"server.services.restart", some "server.services.write", .denyOnly⟩
      (readerRecord.subject .lists) readerViews readerWorld
      (.serviceMutation .restart "nginx.service"),
      NamesAccount Token.zeroToken.keyId readerRecord e.2 := by
  constructor
  · intro hnames
    have hattribution := attribution_iff Token.sampleCrypto .lists bareEnv
      (some Token.zeroToken.capability) prunedViews_authentic prunedViews_wellKeyed
      prunedViews_inOrder
    have hpresent := ((hattribution.1 _ _ _ (by decide)).2.mp hnames).2
    revert hpresent
    decide +kernel
  · have hattribution := attribution_iff (v := readerViews) Token.sampleCrypto .lists bareEnv
      (some Token.zeroToken.capability) prunedViews_authentic prunedViews_wellKeyed
      ⟨.refl, .refl, .refl, .refl⟩
    refine (hattribution.1 _ _ _ (by decide)).2.mpr ⟨?_, ?_⟩
    · decide +kernel
    · decide +kernel

/-- An event may name the handle. -/
theorem not_forall_namesAccount :
    ¬ ∀ (X : TokenCrypto) (core : ScopeSets) (env : Env) (cap : Option String) (k : String)
      (rec : CapabilityRecord) (v : Views) (reg : Registered) (w : World) (r : Request),
      Authentic X env.clock.expiry cap v.authenticated k rec → WellKeyed v.authenticated →
      v.InOrder k → ∀ e ∈ trail X env cap reg (rec.subject core) v w r, NamesAccount k rec e.2 := by
  intro h
  have hall : ∀ e ∈ readerTrail, NamesAccount Token.zeroToken.keyId readerRecord e.2 :=
    h _ _ _ _ _ _ _ _ _ _ prunedViews_authentic prunedViews_wellKeyed prunedViews_inOrder
  have hhandle : "cap:aaaaaaaaaaaaaaaa" ∈ readerTrail.map fun e ↦ e.2.subject.text := by
    rw [readerTrail_subjects]
    exact List.mem_cons_of_mem _ List.mem_cons_self
  obtain ⟨e, he, htext⟩ := List.mem_map.mp hhandle
  rw [(hall e he).1] at htext
  revert htext
  decide +kernel

end Vaiexia.Api
