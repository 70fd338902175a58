import Vaiexia.Api.AuthMethods

/-!
# How long a token lives

`login` and `token_create` compute the expiry of a token as `now_secs() + ttl` in 64 bits, and the
verifier compares it with the clock.  `Later` is what may happen to the store between the two; as
long as nobody revokes the token, its record is there, aged, or was pruned when it had expired
(`Later.record`).

So the token lives exactly as long as it was asked to if the sum does not wrap, and otherwise not
(`token_lifetime`).
-/

namespace Vaiexia.Api

open Vaiexia.Lib Vaiexia.Audit Vaiexia.Auth

/-! ## After a token was issued -/

/-- What may happen to the store up to the time `t`, the daemon being restarted too: no other
capability is added under the key id, no revocation of it returns `Ok`, and no prune reads a later
time. -/
inductive Later (k : String) (t : UInt64) (st : FileStore) : FileStore → Prop
  | refl : Later k t st st
  | call {mid : FileStore} (h : Later k t st mid) (fault : Option StoreError) (call : StoreCall)
      (hadds : ¬ call.Adds k)
      (hrevoke : ∀ n, (call.run fault mid).2 = .ok n → call ≠ .revokeCapability k)
      (hprune : ∀ now grace, call = .pruneCapabilities now grace → now ≤ t) :
      Later k t st (call.run fault mid).1
  | restart {mid st' : FileStore} (h : Later k t st mid)
      (hopen : FileStore.openFile mid.file = some st') : Later k t st st'

theorem le_saturatingAdd (e grace : UInt64) : e ≤ saturatingAdd e grace := by
  have he := e.toNat_lt
  rw [UInt64.le_iff_toNat_le, saturatingAdd, UInt64.toNat_ofNat', Nat.mod_eq_of_lt (by omega)]
  omega

/-- A live record is pruned only after it has expired. -/
theorem expired_of_removable {rec : CapabilityRecord} {now grace t : UInt64}
    (hlive : rec.revoked = false) (h : removable now grace rec = true) (ht : now ≤ t) :
    rec.expired t = true := by
  rw [removable, hlive, Bool.false_or, Option.any_eq_true] at h
  obtain ⟨e, he, hle⟩ := h
  have hexpired : e ≤ t :=
    UInt64.le_trans (UInt64.le_trans (le_saturatingAdd e grace) (of_decide_eq_true hle)) ht
  rw [CapabilityRecord.expired, he, Option.any_some]
  exact decide_eq_true hexpired

section Later

variable {k : String} {t : UInt64} {st st' : FileStore}

/-- File and snapshot stay in step. -/
theorem Later.inSync (h : Later k t st st') (hsync : st.InSync) : st'.InSync := by
  induction h with
  | refl => exact hsync
  | call _ fault call _ _ _ ih => exact call.run_inSync fault ih
  | restart _ hopen _ => exact (FileStore.inSync_of_openFile hopen).1

/-- **What becomes of a live record**: it is there, live, and with the same expiry, or it has been
pruned, and then it has expired. -/
theorem Later.record (h : Later k t st st') (hsync : st.InSync) {rec : CapabilityRecord}
    (hk : st.snap.lookupCapability k = some rec) (hlive : rec.revoked = false) :
    (∃ rec', st'.snap.lookupCapability k = some rec' ∧ rec.Ages rec' ∧ rec'.revoked = false) ∨
      st'.snap.lookupCapability k = none ∧ rec.expired t = true := by
  induction h with
  | refl => exact .inl ⟨rec, hk, .refl rec, hlive⟩
  | call hmid fault call hadds hrevoke hprune ih =>
      rcases ih with ⟨rec', hk', hages, hlive'⟩ | ⟨hnone, hexpired⟩
      · rcases call.run_kept fault hadds hk' with
          ⟨rec'', hk'', hages', hsame | ⟨hcall, n, hok⟩⟩ | ⟨hnone, now, grace, hcall, hremove⟩
        · exact .inl ⟨rec'', hk'', hages.trans hages', hsame.trans hlive'⟩
        · exact absurd hcall (hrevoke n hok)
        · have hexpired := expired_of_removable hlive' hremove (hprune now grace hcall)
          rw [CapabilityRecord.expired, hages.expiresAt_eq] at hexpired
          exact .inr ⟨hnone, hexpired⟩
      · exact .inr ⟨call.run_none fault hadds hnone, hexpired⟩
  | restart hmid hopen ih =>
      have hsnap := FileStore.snap_of_openFile hopen (hmid.inSync hsync)
      rw [hsnap]
      exact ih

end Later

/-! ## The law -/

/-- The token authenticates. -/
def Authenticates (X : TokenCrypto) (core : ScopeSets) (clock : Clock) (token : String)
    (st : FileStore) : Prop :=
  ∃ subject, (authenticate X core clock (some token) st).2 = .ok subject

/-- At any time, the token authenticates exactly when that time is before `t₀ + ttl`, the sum being
that of natural numbers, and always when there is no `ttl`. -/
def LivesUntil (X : TokenCrypto) (core : ScopeSets) (token k : String) (t₀ : UInt64)
    (ttl : Option UInt64) (st : FileStore) : Prop :=
  ∀ (clock : Clock) (st' : FileStore), Later k clock.expiry st st' →
    (Authenticates X core clock token st' ↔
      ∀ d, ttl = some d → clock.expiry.toNat < t₀.toNat + d.toNat)

/-- The expiry of a token fits in 64 bits. -/
def NoOverflow (t₀ : UInt64) (ttl : Option UInt64) : Prop :=
  ∀ d, ttl = some d → t₀.toNat + d.toNat < 2 ^ 64

section Lifetime

variable {X : TokenCrypto} {core : ScopeSets} {token k : String} {secret : Bytes}

/-- A token whose record is live authenticates until the record expires. -/
theorem authenticates_later {clock : Clock} {st st' : FileStore}
    (hlater : Later k clock.expiry st st') (hsync : st.InSync)
    (hparse : Token.parse X token = some (k, secret)) {rec : CapabilityRecord}
    (hk : st.snap.lookupCapability k = some rec) (hlive : rec.revoked = false)
    (hhash : rec.secretHash = X.blake3 secret) :
    Authenticates X core clock token st' ↔ rec.expired clock.expiry = false := by
  rcases authenticate_cases X core clock (some token) st' with ⟨keyId, rec', hauth, h⟩ | ⟨e, hno, h⟩
  · have hok : Authenticates X core clock token st' := ⟨_, congrArg Prod.snd h⟩
    obtain ⟨token', secret', htoken, hparse', hk', -, -, hexpiry⟩ := hauth
    obtain rfl := Option.some.inj htoken
    obtain ⟨rfl, -⟩ := Prod.mk.inj (Option.some.inj (hparse.symm.trans hparse'))
    rcases hlater.record hsync hk hlive with ⟨rec'', hk'', hages, -⟩ | ⟨hnone, -⟩
    · obtain rfl := Option.some.inj (hk'.symm.trans hk'')
      have hexpired := CapabilityRecord.expired_eq_false.mpr hexpiry
      rw [CapabilityRecord.expired, hages.expiresAt_eq] at hexpired
      exact ⟨fun _ ↦ hexpired, fun _ ↦ hok⟩
    · rw [hnone] at hk'
      cases hk'
  · have herr : ¬ Authenticates X core clock token st' := by
      rintro ⟨subject, hok⟩
      rw [h] at hok
      cases hok
    refine ⟨fun hok ↦ absurd hok herr, fun hexpired ↦ ?_⟩
    rcases hlater.record hsync hk hlive with ⟨rec'', hk'', hages, hlive'⟩ | ⟨-, hexpired'⟩
    · refine absurd ⟨token, secret, rfl, hparse, hk'', hlive', ?_, ?_⟩ (hno k rec'')
      · rw [hages.secretHash_eq, hhash]
      · refine CapabilityRecord.expired_eq_false.mp ?_
        rw [CapabilityRecord.expired, hages.expiresAt_eq]
        exact hexpired
    · rw [hexpired] at hexpired'
      cases hexpired'

/-- Comparing with the sum in 64 bits is comparing with the sum exactly when the sum fits. -/
theorem lt_add_iff (t₀ d : UInt64) :
    (∀ t : UInt64, t < t₀ + d ↔ t.toNat < t₀.toNat + d.toNat) ↔ t₀.toNat + d.toNat < 2 ^ 64 := by
  constructor
  · intro h
    by_contra hover
    -- the last reading of the clock is before the sum, and not before any 64-bit expiry
    have hlast : (UInt64.ofNat (2 ^ 64 - 1)).toNat = 2 ^ 64 - 1 := by decide
    have hlt := (h (UInt64.ofNat (2 ^ 64 - 1))).mpr (by omega)
    have hbound := (t₀ + d).toNat_lt
    rw [UInt64.lt_iff_toNat_lt] at hlt
    omega
  · intro hfits t
    rw [UInt64.lt_iff_toNat_lt, UInt64.toNat_add, Nat.mod_eq_of_lt hfits]

/-- **A token lives as long as it was asked to** exactly when its expiry fits in 64 bits. -/
theorem livesUntil_iff {st : FileStore} (hsync : st.InSync)
    (hparse : Token.parse X token = some (k, secret)) {rec : CapabilityRecord}
    (hk : st.snap.lookupCapability k = some rec) (hlive : rec.revoked = false)
    (hhash : rec.secretHash = X.blake3 secret) {t₀ : UInt64} {ttl : Option UInt64}
    (hexpiry : rec.expiresAt = ttl.map (t₀ + ·)) :
    LivesUntil X core token k t₀ ttl st ↔ NoOverflow t₀ ttl := by
  have hauth : ∀ (clock : Clock) (st' : FileStore), Later k clock.expiry st st' →
      (Authenticates X core clock token st' ↔ ∀ d, ttl = some d → clock.expiry < t₀ + d) := by
    intro clock st' hlater
    rw [authenticates_later hlater hsync hparse hk hlive hhash,
      CapabilityRecord.expired_eq_false, hexpiry]
    cases ttl <;> simp
  unfold LivesUntil NoOverflow
  cases ttl with
  | none =>
      have hnone : ∀ P : UInt64 → Prop, ∀ d, none = some d → P d := fun _ _ h ↦ nomatch h
      refine iff_of_true (fun clock st' hlater ↦ ?_) (hnone _)
      rw [hauth clock st' hlater]
      exact iff_of_true (hnone _) (hnone _)
  | some d =>
      have hone : ∀ P : UInt64 → Prop, (∀ d', some d = some d' → P d') ↔ P d := by simp
      rw [hone, ← lt_add_iff]
      constructor
      · intro h t
        have hrefl := hauth ⟨t, t, t⟩ st .refl
        rw [hone] at hrefl
        rw [← hrefl, h ⟨t, t, t⟩ st .refl, hone]
      · intro h clock st' hlater
        rw [hauth clock st' hlater, hone, hone]
        exact h clock.expiry

end Lifetime

/-! ## The tokens that handlers issue -/

/-- The encodings do what they promise on the bytes that were drawn. -/
structure TokenBytes.Decodable (X : TokenCrypto) (bytes : TokenBytes) : Prop where
  keyId : Token.isKeyId (X.base32Encode bytes.keyId) = true
  secret : X.base64Decode (X.base64Encode bytes.secret) = some bytes.secret
  length : bytes.secret.length = 32

/-- The capability that was minted is in the store. -/
structure Issued (X : TokenCrypto) (bytes : TokenBytes) (capability : String)
    (rec : CapabilityRecord) (st : FileStore) : Prop where
  capability : capability = (Token.mint X bytes.keyId bytes.secret).capability
  lookup : st.snap.lookupCapability (Token.mint X bytes.keyId bytes.secret).keyId = some rec
  inSync : st.InSync

/-- A capability that was added is in the store. -/
theorem lookup_of_addCapability {fault : Option StoreError} {rec : CapabilityRecord}
    {st st' : FileStore} {n : Nat} (h : st.addCapability fault rec = (st', .ok n))
    (hsync : st.InSync) : st'.snap.lookupCapability rec.keyId = some rec ∧ st'.InSync := by
  constructor
  · rcases addCapability_cases fault rec st with ⟨e, h'⟩ | ⟨st'', n', h', hsnap⟩
    · rw [h] at h'
      cases h'
    · obtain rfl : st' = st'' := congrArg Prod.fst (h.symm.trans h')
      rw [hsnap, IdentitySnapshot.lookupCapability_addCapability, if_pos rfl]
  · have hrun := StoreCall.run_inSync fault (.addCapability rec) hsync
    rw [StoreCall.run, h] at hrun
    exact hrun

section Handlers

variable {X : TokenCrypto} {now : Readings} {bytes : TokenBytes}
  {fault : Option StoreError} {snap : IdentitySnapshot} {st st' : FileStore}
  {events : List AuditEvent}

/-- What `login` issues. -/
theorem login_issued {verifyPassword : String → String → Except String Bool}
    {checked : Except Nat Unit} {p : LoginParams} {resp : LoginResponse}
    (h : login X verifyPassword checked now bytes fault p snap st = (st', events, .ok resp))
    (hsync : st.InSync) :
    ∃ acc, snap.lookupAccount p.name = some acc ∧
      Issued X bytes resp.capability (loginRecord X now bytes p acc) st' := by
  unfold login at h
  split at h
  · cases h
  · split at h
    · cases h
    · rename_i acc hacc
      split at h
      · cases h
      · cases h
      · dsimp only at h
        split at h
        · cases h
        · rename_i hadd
          cases h
          obtain ⟨hlookup, hsync'⟩ := lookup_of_addCapability hadd hsync
          exact ⟨acc, hacc, rfl, hlookup, hsync'⟩

/-- What `token_create` issues. -/
theorem tokenCreate_issued {core : ScopeSets} {debugStrings : List String → String}
    {p : TokenCreateParams} {subject : Subject core} {resp : TokenCreateResponse}
    (h : tokenCreate X debugStrings now bytes fault p subject snap st = (st', events, .ok resp))
    (hsync : st.InSync) :
    Issued X bytes resp.capability
      (tokenCreateRecord X now bytes p (resolveOwnerSubjectId subject snap)) st' := by
  unfold tokenCreate at h
  split at h
  · cases h
  · split at h
    · cases h
    · dsimp only at h
      split at h
      · cases h
      · rename_i hadd
        cases h
        obtain ⟨hlookup, hsync'⟩ := lookup_of_addCapability hadd hsync
        exact ⟨rfl, hlookup, hsync'⟩

/-- A token that was issued with the expiry `t₀ + ttl` lives as long as it was asked to exactly when
that fits in 64 bits. -/
theorem Issued.livesUntil_iff (core : ScopeSets) {capability : String} {rec : CapabilityRecord}
    (h : Issued X bytes capability rec st) (hbytes : bytes.Decodable X)
    (hlive : rec.revoked = false) (hhash : rec.secretHash = X.blake3 bytes.secret) {t₀ : UInt64}
    {ttl : Option UInt64} (hexpiry : rec.expiresAt = ttl.map (t₀ + ·)) :
    LivesUntil X core capability (Token.mint X bytes.keyId bytes.secret).keyId t₀ ttl st ↔
      NoOverflow t₀ ttl := by
  have hparse := Token.parse_mint hbytes.keyId hbytes.secret hbytes.length
  rw [← h.capability] at hparse
  exact Api.livesUntil_iff h.inSync hparse h.lookup hlive hhash hexpiry

end Handlers

/-- **Tokens live as long as they were asked to** exactly when `t₀ + ttl` fits in 64 bits: the token
that a successful `auth.login` or `auth.token.create` returns, in every store that is reached
without revoking it, and whenever it is presented. -/
theorem token_lifetime (X : TokenCrypto) (core : ScopeSets) (now : Readings) {bytes : TokenBytes}
    (hbytes : bytes.Decodable X) (fault : Option StoreError) (snap : IdentitySnapshot)
    {st : FileStore} (hsync : st.InSync) :
    (∀ verifyPassword checked p st' events resp,
      login X verifyPassword checked now bytes fault p snap st = (st', events, .ok resp) →
      (LivesUntil X core resp.capability (Token.mint X bytes.keyId bytes.secret).keyId
        now.expiry p.ttl st' ↔ NoOverflow now.expiry p.ttl)) ∧
    ∀ debugStrings p (subject : Subject core) st' events resp,
      tokenCreate X debugStrings now bytes fault p subject snap st = (st', events, .ok resp) →
      (LivesUntil X core resp.capability (Token.mint X bytes.keyId bytes.secret).keyId
        now.expiry p.ttl st' ↔ NoOverflow now.expiry p.ttl) := by
  constructor
  · intro verifyPassword checked p st' events resp h
    obtain ⟨acc, -, hissued⟩ := login_issued h hsync
    exact hissued.livesUntil_iff core hbytes rfl rfl rfl
  · intro debugStrings p subject st' events resp h
    exact (tokenCreate_issued h hsync).livesUntil_iff core hbytes rfl rfl rfl

/-- An administrator that may read. -/
def adminAccount : AccountRecord where
  name := "admin"
  passwordPhc := "$argon2id$v=19$m=19456,t=2,p=1$c2FsdHNhbHRzYWx0$aGFzaA"
  subjectId := "user:admin"
  scopes := ["server.read"]

/-- A store with that account only. -/
def accountStore : FileStore where
  file := some (IdentitySnapshot.default.addAccount adminAccount).toJson
  snap := IdentitySnapshot.default.addAccount adminAccount
  pendingTouch := ∅

theorem accountStore_inSync : accountStore.InSync := FileStore.load_toJson _

/-- Zeros, as random bytes. -/
def zeroBytes : TokenBytes := ⟨List.replicate 10 0, List.replicate 32 0⟩

theorem zeroBytes_decodable : zeroBytes.Decodable Token.sampleCrypto where
  keyId := by decide
  secret := by decide
  length := rfl

/-- The administrator's login, with the clock at 1700000000. -/
def adminLogin (ttl : UInt64) : FileStore × List AuditEvent × Except Diagnostic LoginResponse :=
  login Token.sampleCrypto (fun _ _ ↦ .ok true) (.ok ())
    ⟨1700000000, 1700000000, 1700000000, 350⟩ zeroBytes none ⟨"admin", "secret", none, some ttl⟩
    accountStore.snap accountStore

theorem adminLogin_ok (ttl : UInt64) :
    ∃ st' events resp, adminLogin ttl = (st', events, .ok resp) := ⟨_, _, _, rfl⟩

/-- An hour's token lives for an hour. -/
theorem token_lifetime_hour :
    ∃ st' events resp, adminLogin 3600 = (st', events, .ok resp) ∧
      LivesUntil Token.sampleCrypto .lists resp.capability Token.zeroToken.keyId 1700000000
        (some 3600) st' := by
  obtain ⟨st', events, resp, h⟩ := adminLogin_ok 3600
  refine ⟨st', events, resp, h, ?_⟩
  refine ((token_lifetime Token.sampleCrypto .lists _ zeroBytes_decodable none accountStore.snap
    accountStore_inSync).1 _ _ _ _ _ _ h).mpr ?_
  rintro d ⟨⟩
  decide

/-- Asked to live for ever, a token does not live at all. -/
theorem not_forall_lifetime :
    ¬ ∀ (X : TokenCrypto) (core : ScopeSets) (now : Readings) (bytes : TokenBytes)
      (st st' : FileStore) (verifyPassword : String → String → Except String Bool)
      (p : LoginParams) (events : List AuditEvent) (resp : LoginResponse),
      bytes.Decodable X → st.InSync →
      login X verifyPassword (.ok ()) now bytes none p st.snap st = (st', events, .ok resp) →
      LivesUntil X core resp.capability (Token.mint X bytes.keyId bytes.secret).keyId now.expiry
        p.ttl st' := by
  intro hall
  obtain ⟨st', events, resp, h⟩ := adminLogin_ok 18446744073709551615
  have hlives := hall Token.sampleCrypto .lists _ zeroBytes accountStore st' _ _ events resp
    zeroBytes_decodable accountStore_inSync h
  obtain ⟨acc, -, hissued⟩ := login_issued h accountStore_inSync
  have hfits := (hissued.livesUntil_iff .lists zeroBytes_decodable rfl rfl rfl).mp hlives
  have hlt := hfits _ rfl
  revert hlt
  decide

end Vaiexia.Api
