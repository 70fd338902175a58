import Vaiexia.Auth.Bootstrap
import Vaiexia.Auth.Verifier

/-!
# Secrets redacted

What is left of records, of the store and of the bootstrap without the hashes of secrets and of
passwords, the code, and the files that hold them.  A call of the store, a claim and an
authentication on two states that are the same with their secrets redacted leave such states again,
and return the same but for the capability that a claim mints, as long as their comparisons come out
the same.
-/

namespace Vaiexia.Auth

open Vaiexia.Lib Vaiexia.Audit

/-- Two results that are the same but for what `f` takes out of the first part. -/
theorem exists_of_map_eq {α β γ : Type} {f : α → β} {a a' : α × γ}
    (h : Prod.map f id a = Prod.map f id a') :
    ∃ t t' r, a = (t, r) ∧ a' = (t', r) ∧ f t = f t' := by
  obtain ⟨t, r⟩ := a
  obtain ⟨t', r'⟩ := a'
  obtain ⟨ht, rfl⟩ := Prod.mk.inj h
  exact ⟨t, t', r, rfl, rfl, ht⟩

/-! ## Records -/

/-- The hash in a redacted record. -/
def noHash : Bytes32 := ⟨List.replicate 32 0, rfl⟩

/-- A record without the hash of its secret. -/
def CapabilityRecord.redact (rec : CapabilityRecord) : CapabilityRecord :=
  { rec with secretHash := noHash }

/-- A record without the hash of its password. -/
def AccountRecord.redact (rec : AccountRecord) : AccountRecord := { rec with passwordPhc := "" }

/-- A snapshot of such records. -/
def IdentitySnapshot.redact (s : IdentitySnapshot) : IdentitySnapshot where
  capabilities := HashMap.map .redact s.capabilities
  accounts := HashMap.map .redact s.accounts

namespace IdentitySnapshot

variable {s s' : IdentitySnapshot}

/-- A capability is in both snapshots, or in none. -/
theorem capability_cases (hs : s.redact = s'.redact) (k : String) :
    (s.lookupCapability k = none ∧ s'.lookupCapability k = none) ∨
      ∃ rec rec', s.lookupCapability k = some rec ∧ s'.lookupCapability k = some rec' ∧
        rec.redact = rec'.redact :=
  HashMap.lookup_cases (congrArg capabilities hs) k

/-- An account is in both snapshots, or in none. -/
theorem account_cases (hs : s.redact = s'.redact) (name : String) :
    (s.lookupAccount name = none ∧ s'.lookupAccount name = none) ∨
      ∃ rec rec', s.lookupAccount name = some rec ∧ s'.lookupAccount name = some rec' ∧
        rec.redact = rec'.redact :=
  HashMap.lookup_cases (congrArg accounts hs) name

theorem redact_addCapability (rec : CapabilityRecord) (s : IdentitySnapshot) :
    (s.addCapability rec).redact = s.redact.addCapability rec.redact := by
  show IdentitySnapshot.mk _ _ = IdentitySnapshot.mk _ _
  congr 1
  exact HashMap.map_insert _ _ _ _

theorem redact_addAccount (rec : AccountRecord) (s : IdentitySnapshot) :
    (s.addAccount rec).redact = s.redact.addAccount rec.redact := by
  show IdentitySnapshot.mk _ _ = IdentitySnapshot.mk _ _
  congr 1
  exact HashMap.map_insert _ _ _ _

end IdentitySnapshot

/-! ## The store -/

/-- A store without the secrets, and without the file. -/
def FileStore.redact (st : FileStore) : FileStore :=
  { st with file := none, snap := st.snap.redact }

namespace FileStore

variable {st st' : FileStore}

/-- What a mutator does is the same if what its closure does is. -/
theorem redact_mutate (fault : Option StoreError) {change change' : Change}
    (hst : st.redact = st'.redact)
    (happly : (change.apply st.snap).map (Prod.map IdentitySnapshot.redact id) =
      (change'.apply st'.snap).map (Prod.map IdentitySnapshot.redact id)) :
    Prod.map redact id (st.mutate fault change) =
      Prod.map redact id (st'.mutate fault change') := by
  have hpending : st.redact.pendingTouch = st'.redact.pendingTouch := by rw [hst]
  unfold mutate
  revert happly
  rcases change.apply st.snap with e | ⟨next, n⟩ <;>
    rcases change'.apply st'.snap with e' | ⟨next', n'⟩ <;>
    intro happly
  · obtain rfl := Except.error.inj happly
    exact Prod.ext hst rfl
  · cases happly
  · cases happly
  · obtain ⟨hnext, rfl⟩ := Prod.mk.inj (Except.ok.inj happly)
    cases fault with
    | some e => exact Prod.ext hst rfl
    | none =>
        apply Prod.ext
        · show FileStore.mk none next.redact _ = FileStore.mk none next'.redact _
          rw [hnext]
          exact congrArg (FileStore.mk none next'.redact) hpending
        · rfl

theorem redact_addCapability (fault : Option StoreError) {rec rec' : CapabilityRecord}
    (hst : st.redact = st'.redact) (hrec : rec.redact = rec'.redact) :
    Prod.map redact id (st.addCapability fault rec) =
      Prod.map redact id (st'.addCapability fault rec') := by
  apply redact_mutate fault hst
  have hsnap : st.snap.redact = st'.snap.redact := congrArg snap hst
  show Except.ok _ = Except.ok _
  rw [Prod.map_apply, Prod.map_apply, IdentitySnapshot.redact_addCapability,
    IdentitySnapshot.redact_addCapability, hsnap, hrec]

theorem redact_addAccount (fault : Option StoreError) {rec rec' : AccountRecord}
    (hst : st.redact = st'.redact) (hrec : rec.redact = rec'.redact) :
    Prod.map redact id (st.addAccount fault rec) =
      Prod.map redact id (st'.addAccount fault rec') := by
  apply redact_mutate fault hst
  have hsnap : st.snap.redact = st'.snap.redact := congrArg snap hst
  show Except.ok _ = Except.ok _
  rw [Prod.map_apply, Prod.map_apply, IdentitySnapshot.redact_addAccount,
    IdentitySnapshot.redact_addAccount, hsnap, hrec]

theorem redact_revokeCapability (fault : Option StoreError) (k : String)
    (hst : st.redact = st'.redact) :
    Prod.map redact id (st.revokeCapability fault k) =
      Prod.map redact id (st'.revokeCapability fault k) := by
  apply redact_mutate fault hst
  have hsnap : st.snap.redact = st'.snap.redact := congrArg snap hst
  rcases IdentitySnapshot.capability_cases hsnap k with ⟨hk, hk'⟩ | ⟨rec, rec', hk, hk', hrec⟩
  · have hnone : ∀ s : IdentitySnapshot, s.lookupCapability k = none →
        (Change.revokeCapability k).apply s = .error (.notFound k) := by
      intro s hs
      rw [Change.apply, IdentitySnapshot.revokeCapability,
        show s.capabilities.lookup k = none from hs]
      rfl
    rw [hnone _ hk, hnone _ hk']
  · have hsome : ∀ (s : IdentitySnapshot) (r : CapabilityRecord), s.lookupCapability k = some r →
        ((Change.revokeCapability k).apply s).map (Prod.map IdentitySnapshot.redact id) =
          .ok ({ s.redact with
                 capabilities := s.redact.capabilities.insert k { r.redact with revoked := true } },
            0) := by
      intro s r hs
      rw [Change.apply, IdentitySnapshot.revokeCapability,
        show s.capabilities.lookup k = some r from hs]
      show Except.ok (IdentitySnapshot.mk _ _, 0) = Except.ok (IdentitySnapshot.mk _ _, 0)
      rw [HashMap.map_insert]
      rfl
    rw [hsome _ _ hk, hsome _ _ hk', hsnap, hrec]

theorem redact_touchLastUsed (k : String) (now : UInt64) (hst : st.redact = st'.redact) :
    (st.touchLastUsed k now).redact = (st'.touchLastUsed k now).redact := by
  show FileStore.mk none st.redact.snap (st.redact.pendingTouch.insert k now) = _
  rw [hst]
  rfl

end FileStore

/-! ## Authentication -/

/-- The same text, or two well-formed tokens with one key id. -/
def Token.Alike (X : TokenCrypto) (cap cap' : Option String) : Prop :=
  cap = cap' ∨ ∃ token token' k secret secret', cap = some token ∧ cap' = some token' ∧
    Token.parse X token = some (k, secret) ∧ Token.parse X token' = some (k, secret')

/-- What `authenticate` finds when it compares the secret, if it comes to that. -/
def secretVerdict (X : TokenCrypto) (cap : Option String) (snap : IdentitySnapshot) :
    Option Bool :=
  match cap.bind (Token.parse X) with
  | none => none
  | some (keyId, secret) =>
      match snap.lookupCapability keyId with
      | none => none
      | some rec => if rec.revoked then none else some (Token.verifySecret X secret rec.secretHash)

section Authenticate

variable {X : TokenCrypto} {core : ScopeSets} {cap cap' : Option String}
  {s s' : IdentitySnapshot} {st st' : FileStore}

/-- The same key id is logged for both. -/
theorem Token.Alike.parseKeyId_eq (h : Token.Alike X cap cap') :
    cap.bind Token.parseKeyId = cap'.bind Token.parseKeyId := by
  rcases h with rfl | ⟨token, token', k, secret, secret', rfl, rfl, hparse, hparse'⟩
  · rfl
  · exact (Token.parseKeyId_of_parse hparse).trans (Token.parseKeyId_of_parse hparse').symm

/-- Both are missing, or malformed, or have one key id. -/
theorem Token.Alike.parse_cases (h : Token.Alike X cap cap') :
    (cap = none ∧ cap' = none) ∨ ∃ token token', cap = some token ∧ cap' = some token' ∧
      ((Token.parse X token = none ∧ Token.parse X token' = none) ∨
        ∃ k secret secret', Token.parse X token = some (k, secret) ∧
          Token.parse X token' = some (k, secret')) := by
  rcases h with rfl | ⟨token, token', k, secret, secret', rfl, rfl, hparse, hparse'⟩
  · cases cap with
    | none => exact .inl ⟨rfl, rfl⟩
    | some token =>
        refine .inr ⟨token, token, rfl, rfl, ?_⟩
        rcases hparse : Token.parse X token with _ | ⟨k, secret⟩
        · exact .inl ⟨rfl, rfl⟩
        · exact .inr ⟨k, secret, secret, rfl, rfl⟩
  · exact .inr ⟨token, token', rfl, rfl, .inr ⟨k, secret, secret', hparse, hparse'⟩⟩

/-- The decision is the same, and so is the record but for its hash. -/
theorem authenticateIn_redact (now : UInt64) (hcap : Token.Alike X cap cap')
    (hs : s.redact = s'.redact) (hverdict : secretVerdict X cap s = secretVerdict X cap' s') :
    (authenticateIn X now cap s).map (Prod.map id CapabilityRecord.redact) =
      (authenticateIn X now cap' s').map (Prod.map id CapabilityRecord.redact) := by
  rcases hcap.parse_cases with ⟨rfl, rfl⟩ |
    ⟨token, token', rfl, rfl, ⟨hparse, hparse'⟩ | ⟨k, secret, secret', hparse, hparse'⟩⟩
  · rfl
  · simp only [authenticateIn, hparse, hparse']
  · rcases IdentitySnapshot.capability_cases hs k with ⟨hk, hk'⟩ | ⟨rec, rec', hk, hk', hrec⟩
    · simp only [authenticateIn, hparse, hparse', hk, hk']
    · have hrevoked : rec.redact.revoked = rec'.redact.revoked := by rw [hrec]
      have hexpired : rec.redact.expired now = rec'.redact.expired now := by rw [hrec]
      change rec.revoked = rec'.revoked at hrevoked
      change rec.expired now = rec'.expired now at hexpired
      simp only [secretVerdict, Option.bind_some, hparse, hparse', hk, hk', ← hrevoked] at hverdict
      simp only [authenticateIn, hparse, hparse', hk, hk', ← hrevoked, ← hexpired]
      cases hr : rec.revoked with
      | true => rfl
      | false =>
          rw [hr] at hverdict
          have hsecret : Token.verifySecret X secret rec.secretHash =
              Token.verifySecret X secret' rec'.secretHash := Option.some.inj hverdict
          rw [← hsecret]
          cases Token.verifySecret X secret rec.secretHash with
          | false => rfl
          | true =>
              cases rec.expired now with
              | true => rfl
              | false =>
                  show Except.ok (k, rec.redact) = Except.ok (k, rec'.redact)
                  rw [hrec]

variable (X core) in
/-- So is what `authenticate` leaves. -/
theorem authenticate_redact (clock : Clock) (hcap : Token.Alike X cap cap')
    (hst : st.redact = st'.redact)
    (hverdict : secretVerdict X cap st.snap = secretVerdict X cap' st'.snap) :
    Prod.map FileStore.redact id (authenticate X core clock cap st) =
      Prod.map FileStore.redact id (authenticate X core clock cap' st') := by
  have h := authenticateIn_redact clock.expiry hcap (congrArg FileStore.snap hst) hverdict
  revert h
  unfold authenticate
  rcases authenticateIn X clock.expiry cap st.snap with e | ⟨k, rec⟩ <;>
    rcases authenticateIn X clock.expiry cap' st'.snap with e' | ⟨k', rec'⟩ <;>
    intro h
  · obtain rfl := Except.error.inj h
    exact Prod.ext hst rfl
  · cases h
  · cases h
  · obtain ⟨rfl, hrec⟩ := Prod.mk.inj (Except.ok.inj h)
    apply Prod.ext
    · exact FileStore.redact_touchLastUsed k clock.touch hst
    · show Except.ok (rec.redact.subject core) = Except.ok (rec'.redact.subject core)
      rw [hrec]

/-- A capability has one owner in both. -/
theorem ownerSubjectId_redact (subject : Subject core) (hs : s.redact = s'.redact) :
    ownerSubjectId subject s = ownerSubjectId subject s' := by
  unfold ownerSubjectId
  cases capKeyId subject with
  | none => rfl
  | some k =>
      rw [Option.bind_some, Option.bind_some]
      rcases IdentitySnapshot.capability_cases hs k with ⟨hk, hk'⟩ | ⟨rec, rec', hk, hk', hrec⟩
      · rw [hk, hk']
      · rw [hk, hk']
        show rec.redact.subjectId = rec'.redact.subjectId
        rw [hrec]

variable (X core) in
/-- The events of `verify_authenticated` tell nothing of the secrets. -/
theorem verifyAuthenticated_redact (clock : Clock) (method : String)
    (hcap : Token.Alike X cap cap') (hst : st.redact = st'.redact)
    (hverdict : secretVerdict X cap st.snap = secretVerdict X cap' st'.snap) :
    Prod.map FileStore.redact id (verifyAuthenticated X core clock cap method st) =
      Prod.map FileStore.redact id (verifyAuthenticated X core clock cap' method st') := by
  obtain ⟨t, t', r, hauth, hauth', ht⟩ :=
    exists_of_map_eq (authenticate_redact X core clock hcap hst hverdict)
  unfold verifyAuthenticated withTokenKeyId
  rw [hauth, hauth', hcap.parseKeyId_eq]
  rcases r with ⟨e, reason⟩ | subject
  · exact Prod.ext ht rfl
  · dsimp only
    rw [humanSubjectId, humanSubjectId, ownerSubjectId_redact subject (congrArg FileStore.snap ht)]
    exact Prod.ext ht rfl

/-- What `verify` finds, for a method that is not open to everybody. -/
def verifyVerdict (X : TokenCrypto) (cap : Option String) (method : String)
    (snap : IdentitySnapshot) : Option Bool :=
  if methodRequirement method = some .anonymous then none else secretVerdict X cap snap

variable (X core) in
/-- Nor do those of `verify`. -/
theorem verify_redact (clock : Clock) {method : String} (hcap : Token.Alike X cap cap')
    (hst : st.redact = st'.redact)
    (hverdict : verifyVerdict X cap method st.snap = verifyVerdict X cap' method st'.snap) :
    Prod.map FileStore.redact id (verify X core clock cap method st) =
      Prod.map FileStore.redact id (verify X core clock cap' method st') := by
  unfold verifyVerdict at hverdict
  unfold verify
  split
  · rename_i hnone
    rw [if_neg (by rw [hnone]; nofun), if_neg (by rw [hnone]; nofun)] at hverdict
    exact verifyAuthenticated_redact X core clock method hcap hst hverdict
  · exact Prod.ext hst rfl
  all_goals
    rename_i hsome
    rw [if_neg (by rw [hsome]; nofun), if_neg (by rw [hsome]; nofun)] at hverdict
    exact verifyAuthenticated_redact X core clock method hcap hst hverdict

variable (X core) in
/-- Nor those of `verify_topic`. -/
theorem verifyTopic_redact (clock : Clock) (topic : String) (hcap : Token.Alike X cap cap')
    (hst : st.redact = st'.redact)
    (hverdict : secretVerdict X cap st.snap = secretVerdict X cap' st'.snap) :
    Prod.map FileStore.redact id (verifyTopic X core clock cap topic st) =
      Prod.map FileStore.redact id (verifyTopic X core clock cap' topic st') := by
  obtain ⟨t, t', r, hauth, hauth', ht⟩ :=
    exists_of_map_eq (authenticate_redact X core clock hcap hst hverdict)
  unfold verifyTopic withTokenKeyId
  rw [hauth, hauth', hcap.parseKeyId_eq]
  rcases r with ⟨e, reason⟩ | subject
  · exact Prod.ext ht rfl
  · dsimp only
    rw [humanSubjectId, humanSubjectId, ownerSubjectId_redact subject (congrArg FileStore.snap ht)]
    cases topicScope topic with
    | none => exact Prod.ext ht rfl
    | some scope =>
        dsimp only
        cases core.contains subject.scopes scope with
        | false => exact Prod.ext ht rfl
        | true => exact Prod.ext ht rfl

end Authenticate

/-! ## The bootstrap -/

/-- A window without its code. -/
def Window.redact (w : Window) : Window := { w with code := zeroCode }

/-- A state without its code. -/
def BootstrapState.redact : BootstrapState → BootstrapState
  | .active w => .active w.redact
  | .disabled => .disabled

/-- A session without the secrets, and without the file of the code. -/
def Session.redact (s : Session) : Session where
  state := s.state.redact
  store := s.store.redact
  codeFile := none

/-- A draw without the code, and without what was written of it. -/
def Draw.redact (draw : Draw) : Draw := zeroDraw draw.now

/-- What a claim finds, without the codes, the secret and the hashes. -/
def ClaimEnv.redact (env : ClaimEnv) : ClaimEnv :=
  { env with
    expired := env.expired.redact
    limited := env.limited.redact
    hashPassword := fun _ ↦ .ok ""
    secret := [] }

/-- A claim without the code and the password. -/
def ClaimParams.redact (p : ClaimParams) : ClaimParams := { p with code := "", password := "" }

/-- The result of a claim without the capability. -/
def ClaimResult.redact (r : ClaimResult) : ClaimResult := { r with capability := "" }

/-- Whether the code of a claim is right, and then whether its password can be hashed. -/
def Session.claimVerdict (env : ClaimEnv) (p : ClaimParams) (s : Session) :
    Option (Option (Except String Unit)) :=
  match s.state with
  | .disabled => none
  | .active w =>
      if isRight p.code (w.refresh env s.codeFile).1.code then
        some (some ((env.hashPassword p.password).map fun _ ↦ ()))
      else some none

namespace Window

variable {env env' : ClaimEnv} {w w' : Window}

/-- One window is expired if the other is. -/
theorem refresh_redact (henv : env.redact = env'.redact) (hw : w.redact = w'.redact)
    (file file' : Option String) :
    (w.refresh env file).1.redact = (w'.refresh env' file').1.redact := by
  obtain ⟨hchecked, hdraw, -⟩ := ClaimEnv.mk.inj henv
  obtain ⟨-, hattempts, hstart, httl⟩ := Window.mk.inj hw
  have hexpired : w.isExpired env = w'.isExpired env' := by
    unfold isExpired
    rw [hchecked, hstart, httl]
  unfold refresh
  rw [← hexpired]
  cases w.isExpired env with
  | false => exact hw
  | true =>
      show Window.mk zeroCode 0 env.expired.redact.now w.ttlSecs =
        Window.mk zeroCode 0 env'.expired.redact.now w'.ttlSecs
      rw [hdraw, httl]

/-- A wrong code is the last one in both, or in none. -/
theorem miss_redact (henv : env.redact = env'.redact) (hw : w.redact = w'.redact)
    (file file' : Option String) :
    (w.miss env file).1.redact = (w'.miss env' file').1.redact ∧
      (w.miss env file).2.2 = (w'.miss env' file').2.2 := by
  obtain ⟨-, -, hdraw, -⟩ := ClaimEnv.mk.inj henv
  obtain ⟨-, hattempts, hstart, httl⟩ := Window.mk.inj hw
  unfold miss
  rw [← hattempts]
  by_cases hlast : maxAttempts ≤ w.attempts + 1
  · rw [if_pos hlast, if_pos hlast]
    refine ⟨?_, rfl⟩
    show Window.mk zeroCode 0 env.limited.redact.now w.ttlSecs =
      Window.mk zeroCode 0 env'.limited.redact.now w'.ttlSecs
    rw [hdraw, httl]
  · rw [if_neg hlast, if_neg hlast]
    refine ⟨?_, rfl⟩
    show Window.mk zeroCode (w.attempts + 1) w.windowStart w.ttlSecs =
      Window.mk zeroCode (w.attempts + 1) w'.windowStart w'.ttlSecs
    rw [hstart, httl]

end Window

namespace Session

variable {X : TokenCrypto} {env env' : ClaimEnv} {p p' : ClaimParams} {s s' : Session}

variable (X) in
/-- The capability of an administrator, but for its secret. -/
theorem adminCapability_redact (henv : env.redact = env'.redact) (hp : p.redact = p'.redact) :
    (adminCapability X env p).redact = (adminCapability X env' p').redact := by
  obtain ⟨-, -, -, -, -, hkey, -, hcreated, -, -⟩ := ClaimEnv.mk.inj henv
  obtain ⟨-, hname, -⟩ := ClaimParams.mk.inj hp
  unfold adminCapability CapabilityRecord.redact Token.mint
  dsimp only
  rw [hkey, hcreated, hname]

variable (X) in
/-- The success path mints its capability unseen. -/
theorem createAdmin_redact (henv : env.redact = env'.redact) (hp : p.redact = p'.redact)
    (hs : s.redact = s'.redact)
    (hhash : (env.hashPassword p.password).map (fun _ ↦ ()) =
      (env'.hashPassword p'.password).map fun _ ↦ ()) :
    Prod.map redact (Except.map ClaimResult.redact) (s.createAdmin X env p) =
      Prod.map redact (Except.map ClaimResult.redact) (s'.createAdmin X env' p') := by
  have hcapability := adminCapability_redact X henv hp
  obtain ⟨-, -, -, -, haccountFault, -, -, -, hcapabilityFault, -⟩ := ClaimEnv.mk.inj henv
  obtain ⟨-, hname, -⟩ := ClaimParams.mk.inj hp
  obtain ⟨hstate, hstore, -⟩ := Session.mk.inj hs
  have hfailed : ∀ {t t' : FileStore} (e : BootstrapError), t.redact = t'.redact →
      Prod.map redact (Except.map ClaimResult.redact) ({ s with store := t }, .error e) =
        Prod.map redact (Except.map ClaimResult.redact) ({ s' with store := t' }, .error e) := by
    intro t t' e ht
    apply Prod.ext
    · show Session.mk s.state.redact t.redact none = Session.mk s'.state.redact t'.redact none
      rw [hstate, ht]
    · rfl
  unfold createAdmin
  revert hhash
  cases env.hashPassword p.password <;> cases env'.hashPassword p'.password <;> intro hhash
  case error.error e e' =>
      obtain rfl := Except.error.inj hhash
      exact hfailed (.password e) hstore
  case error.ok => cases hhash
  case ok.error => cases hhash
  case ok.ok phc phc' =>
      have haccount : (adminAccount p phc).redact = (adminAccount p' phc').redact := by
        show AccountRecord.mk p.adminName "" s!"user:{p.adminName}" adminScopes = _
        rw [hname]
        rfl
      obtain ⟨t, t', r, hadd, hadd', ht⟩ := exists_of_map_eq
        (FileStore.redact_addAccount env.accountFault hstore haccount)
      dsimp only
      rw [hadd, ← haccountFault, hadd']
      cases r with
      | error e => exact hfailed (.storeError e.toString) ht
      | ok n =>
          obtain ⟨u, u', r, hcap, hcap', hu⟩ := exists_of_map_eq
            (FileStore.redact_addCapability env.capabilityFault ht hcapability)
          dsimp only
          rw [hcap, ← hcapabilityFault, hcap']
          cases r with
          | error e => exact hfailed (.storeError e.toString) hu
          | ok n =>
              apply Prod.ext
              · show Session.mk .disabled u.redact none = Session.mk .disabled u'.redact none
                rw [hu]
              · show Except.ok (ClaimResult.mk "" s!"user:{p.adminName}" adminScopes) = _
                rw [hname]
                rfl

variable (X) in
/-- **A claim tells nothing of its secrets** but what comparing the code and hashing the password
come to. -/
theorem claim_redact (henv : env.redact = env'.redact) (hp : p.redact = p'.redact)
    (hs : s.redact = s'.redact) (hverdict : s.claimVerdict env p = s'.claimVerdict env' p') :
    Prod.map redact (Except.map ClaimResult.redact) (s.claim X env p) =
      Prod.map redact (Except.map ClaimResult.redact) (s'.claim X env' p') := by
  obtain ⟨hstate, hstore, -⟩ := Session.mk.inj hs
  unfold claim
  unfold claimVerdict at hverdict
  revert hverdict hstate
  rcases s.state with w | - <;> rcases s'.state with w' | - <;> intro hverdict hstate
  · have hw : (w.refresh env s.codeFile).1.redact = (w'.refresh env' s'.codeFile).1.redact :=
      Window.refresh_redact henv (BootstrapState.active.inj hstate) _ _
    dsimp only at hverdict ⊢
    cases hright : isRight p.code (w.refresh env s.codeFile).1.code <;>
      cases hright' : isRight p'.code (w'.refresh env' s'.codeFile).1.code <;>
      rw [hright, hright'] at hverdict <;> rw [isRight] at hright hright' <;> rw [hright, hright']
    case false.true | true.false => cases hverdict
    case false.false =>
        obtain ⟨hmiss, herror⟩ := Window.miss_redact henv hw (w.refresh env s.codeFile).2
          (w'.refresh env' s'.codeFile).2
        apply Prod.ext
        · show Session.mk (.active (Window.redact _)) s.store.redact none =
            Session.mk (.active (Window.redact _)) s'.store.redact none
          rw [hmiss, hstore]
        · exact congrArg Except.error herror
    case true.true =>
        refine createAdmin_redact X henv hp ?_ ?_
        · show Session.mk (.active (Window.redact _)) s.store.redact none =
            Session.mk (.active (Window.redact _)) s'.store.redact none
          rw [hw, hstore]
        · exact Option.some.inj (Option.some.inj hverdict)
  · cases hstate
  · cases hstate
  · exact Prod.ext hs rfl

end Session

end Vaiexia.Auth
