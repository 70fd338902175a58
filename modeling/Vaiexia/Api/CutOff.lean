import Vaiexia.Api.Delegation

/-!
# What a revocation cuts off

Authentication and the addition of a token are two accesses to the store, and the scope set that is
checked in between is that of the first.  Once `auth.token.revoke` has answered `Ok`, nothing
authenticates with the capability; a request that had authenticated before still gets its token.

`Daemon.Cut` is what the revocation leaves: whoever acts for the capability now did so when it was
revoked.  Every step keeps it, so that the requests on the way only become fewer.
-/

namespace Vaiexia.Api

open Vaiexia.Lib Vaiexia.Audit Vaiexia.Auth

variable {ι : Type} {X : TokenCrypto} {core : ScopeSets}
  {verifyPassword : String → String → Except String Bool}
  {debugStrings : List String → String} {d₀ d d' : Daemon ι core} {k : String}

/-! ## Individuals are distinct -/

/-- No two key ids have the same holder, and what is issued next is a new one. -/
structure Daemon.Distinct (d : Daemon ι core) : Prop where
  injective : Function.Injective d.holder
  known : ∀ k n, d.holder k = .issued n → n < d.issued.length

namespace Daemon.Distinct

theorem start (store : FileStore) : (Daemon.start core store : Daemon ι core).Distinct where
  injective := fun _ _ h ↦ Individual.initial.inj h
  known := fun _ _ h ↦ nomatch h

/-- The number of the next one is not taken. -/
theorem next_ne (h : d.Distinct) (k : String) : d.holder k ≠ .issued d.issued.length :=
  fun heq ↦ lt_irrefl _ (h.known k _ heq)

theorem effect (heffect : Effect X d d') (h : d.Distinct) : d'.Distinct := by
  cases heffect with
  | authenticates hauth hcaller hothers hsnap hissued hholder =>
      exact ⟨hholder ▸ h.injective, by rw [hissued, hholder]; exact h.known⟩
  | keeps hstay haged hissued hholder =>
      exact ⟨hholder ▸ h.injective, by rw [hissued, hholder]; exact h.known⟩
  | @issues record source hstay hsnap hissued hholder hcreated hloggedIn =>
      constructor
      · intro k k' heq
        rw [hholder, Function.update_apply, Function.update_apply] at heq
        split at heq <;> split at heq
        · rename_i hk hk'
          rw [hk, hk']
        · exact absurd heq.symm (h.next_ne k')
        · exact absurd heq (h.next_ne k)
        · exact h.injective heq
      · intro k n hk
        rw [hissued, List.length_append, List.length_singleton]
        rw [hholder, Function.update_apply] at hk
        split at hk
        · rw [← Individual.issued.inj hk]
          exact Nat.lt_succ_self _
        · exact Nat.lt_succ_of_lt (h.known k n hk)

end Daemon.Distinct

theorem Reaches.distinct [DecidableEq ι] {store : FileStore}
    (h : Reaches X core verifyPassword debugStrings (Daemon.start core store) d) :
    d.Distinct := by
  induction h with
  | refl => exact .start store
  | tail _ hstep ih => exact ih.effect hstep.effect

/-! ## The cut -/

/-- The capability that the store held under `k` is revoked wherever it still is, and only requests
act for it that did so before. -/
structure Daemon.Cut (d₀ : Daemon ι core) (k : String) (d : Daemon ι core) : Prop where
  revoked : d.holder k = d₀.holder k →
    ∀ rec, d.store.snap.lookupCapability k = some rec → rec.revoked = true
  only : ∀ k', d.holder k' = d₀.holder k → k' = k
  known : ∀ n, d₀.holder k = .issued n → n < d.issued.length
  onTheWay : ∀ i subject, (d.flight i).caller = some (subject, d₀.holder k) →
    (d₀.flight i).caller = some (subject, d₀.holder k)

namespace Daemon.Cut

/-- It is there once the revocation is published. -/
theorem of_tokenRevoke {now latencyUs : UInt64} {fault : Option StoreError}
    {revoker : Subject core} {snap : IdentitySnapshot} {st : FileStore} {events : List AuditEvent}
    (hrevoke : tokenRevoke now latencyUs fault k revoker snap d₀.store = (st, events, .ok ()))
    (h : d₀.Distinct) : d₀.Cut k { d₀ with store := st } where
  revoked := by
    intro _ rec hrec
    rcases d₀.store.revokeCapability_cases fault k with ⟨e, hfail⟩ | ⟨st', n, hok, hrevoked⟩
    · rw [tokenRevoke, hfail] at hrevoke
      cases (Prod.mk.inj (Prod.mk.inj hrevoke).2).2
    · rw [tokenRevoke, hok] at hrevoke
      obtain rfl := (Prod.mk.inj hrevoke).1
      exact hrevoked rec hrec
  only := fun _ heq ↦ h.injective heq
  known := h.known k
  onTheWay := fun _ _ hi ↦ hi

/-- Nothing authenticates with it. -/
theorem not_authentic (h : d₀.Cut k d) (hholder : d.holder k = d₀.holder k) {now : UInt64}
    {cap : Option String} {rec : CapabilityRecord} :
    ¬ Authentic X now cap d.store.snap k rec := by
  rintro ⟨-, -, -, -, hrec, hlive, -⟩
  rw [h.revoked hholder rec hrec] at hlive
  cases hlive

/-- Requests that have the callers they had. -/
theorem onTheWay_of_stay (h : d₀.Cut k d) (hstay : d.CallersStay d') :
    ∀ i subject, (d'.flight i).caller = some (subject, d₀.holder k) →
      (d₀.flight i).caller = some (subject, d₀.holder k) := by
  intro i subject hi
  rcases hstay i with hnone | hsame
  · rw [hnone] at hi
    cases hi
  · exact h.onTheWay i subject (hsame.symm.trans hi)

/-- **A step keeps the cut.** -/
theorem effect (heffect : Effect X d d') (h : d₀.Cut k d) : d₀.Cut k d' := by
  cases heffect with
  | @authenticates i now token keyId rec hauth hcaller hothers hsnap hissued hholder =>
      refine ⟨hholder ▸ hsnap ▸ h.revoked, hholder ▸ h.only, hissued ▸ h.known, ?_⟩
      intro j subject hj
      rcases eq_or_ne j i with rfl | hne
      · -- it would have authenticated with what is revoked
        obtain ⟨-, hsame⟩ := Prod.mk.inj (Option.some.inj (hcaller.symm.trans hj))
        obtain rfl := h.only keyId hsame
        exact absurd hauth (h.not_authentic hsame)
      · exact h.onTheWay j subject ((hothers j hne).symm.trans hj)
  | keeps hstay haged hissued hholder =>
      refine ⟨?_, hholder ▸ h.only, hissued ▸ h.known, h.onTheWay_of_stay hstay⟩
      intro hk rec' hrec'
      obtain ⟨rec, hrec, hages⟩ := haged k rec' hrec'
      exact hages.revoked (h.revoked (hholder ▸ hk) rec hrec)
  | @issues record source hstay hsnap hissued hholder hcreated hloggedIn =>
      -- what is issued now is somebody else
      have hnew : (.issued d.issued.length : Individual) ≠ d₀.holder k :=
        fun heq ↦ lt_irrefl _ (h.known _ heq.symm)
      refine ⟨?_, ?_, ?_, h.onTheWay_of_stay hstay⟩
      · intro hk rec hrec
        rw [hholder, Function.update_apply] at hk
        rw [hsnap, IdentitySnapshot.lookupCapability_addCapability] at hrec
        split at hk
        · exact absurd hk hnew
        · rename_i hne
          rw [if_neg hne] at hrec
          exact h.revoked hk rec hrec
      · intro k' hk'
        rw [hholder, Function.update_apply] at hk'
        split at hk'
        · exact absurd hk' hnew
        · exact h.only k' hk'
      · intro n hn
        rw [hissued, List.length_append]
        exact Nat.lt_add_right _ (h.known n hn)

/-- **A run keeps the cut.** -/
theorem reaches [DecidableEq ι] {d₁ : Daemon ι core} (h : d₀.Cut k d₁)
    (hrun : Reaches X core verifyPassword debugStrings d₁ d) : d₀.Cut k d := by
  induction hrun with
  | refl => exact h
  | tail _ hstep ih => exact ih.effect hstep.effect

end Daemon.Cut

/-- What a step adds for a caller, it adds for a request of that caller, which is done then. -/
theorem Effect.created (heffect : Effect X d d') {issue : Issue} {caller : Individual}
    (hissued : d'.issued = d.issued ++ [issue]) (hsource : issue.source = .created caller) :
    ∃ i subject, (d.flight i).caller = some (subject, caller) ∧ (d'.flight i).caller = none := by
  cases heffect with
  | authenticates hauth hcaller hothers hsnap hsame hholder =>
      rw [hsame] at hissued
      cases List.self_eq_append_right.mp hissued
  | keeps hstay haged hsame hholder =>
      rw [hsame] at hissued
      cases List.self_eq_append_right.mp hissued
  | issues hstay hsnap hnew hholder hcreated hloggedIn =>
      obtain rfl := List.singleton_inj.mp (List.append_cancel_left (hnew.symm.trans hissued))
      obtain ⟨i, subject, hi, hdone, -⟩ := hcreated caller hsource
      exact ⟨i, subject, hi, hdone⟩

/-- **What a revocation cuts off.**  In every state that is reached once `auth.token.revoke` has
answered `Ok` for a key id, of the capability that the store held under it then:

* nothing authenticates with it;
* the requests that act for it are among those that did so when it was revoked;
* a step that adds a capability for it is the last one of such a request. -/
theorem revocation_cuts_off [DecidableEq ι] {store : FileStore}
    (hrun : Reaches X core verifyPassword debugStrings (Daemon.start core store) d₀)
    {now latencyUs : UInt64} {fault : Option StoreError} {revoker : Subject core}
    {snap : IdentitySnapshot} {st : FileStore} {events : List AuditEvent}
    (hrevoke : tokenRevoke now latencyUs fault k revoker snap d₀.store = (st, events, .ok ()))
    (hlater : Reaches X core verifyPassword debugStrings { d₀ with store := st } d) :
    (d.holder k = d₀.holder k → ∀ t cap rec, ¬ Authentic X t cap d.store.snap k rec) ∧
    (∀ i subject, (d.flight i).caller = some (subject, d₀.holder k) →
      (d₀.flight i).caller = some (subject, d₀.holder k)) ∧
    ∀ d' issue, Step X core verifyPassword debugStrings d d' →
      d'.issued = d.issued ++ [issue] → issue.source = .created (d₀.holder k) →
      ∃ i subject, (d₀.flight i).caller = some (subject, d₀.holder k) ∧
        (d.flight i).caller = some (subject, d₀.holder k) ∧ (d'.flight i).caller = none := by
  have hcut := (Daemon.Cut.of_tokenRevoke hrevoke hrun.distinct).reaches hlater
  refine ⟨fun hholder _ _ _ ↦ hcut.not_authentic hholder, hcut.onTheWay, ?_⟩
  intro d' issue hstep hissued hsource
  obtain ⟨i, subject, hi, hdone⟩ := hstep.effect.created hissued hsource
  exact ⟨i, subject, hcut.onTheWay i subject hi, hi, hdone⟩

/-! ## A request that is on the way -/

/-- The zero token is revoked between the authentication of a request and its handler, and the
handler adds a capability. -/
theorem exists_onTheWay_adminStore : ∃ (d₀ d d' : Daemon Unit .lists) (st : FileStore)
    (events : List AuditEvent) (issue : Issue),
    Reaches Token.sampleCrypto .lists (fun _ _ ↦ .ok false) (fun _ ↦ "")
      (Daemon.start .lists adminStore) d₀ ∧
    tokenRevoke 1700000000 200 none Token.zeroToken.keyId (adminRecord.subject .lists)
      adminStore.snap d₀.store = (st, events, .ok ()) ∧
    Reaches Token.sampleCrypto .lists (fun _ _ ↦ .ok false) (fun _ ↦ "")
      { d₀ with store := st } d ∧
    Step Token.sampleCrypto .lists (fun _ _ ↦ .ok false) (fun _ ↦ "") d d' ∧
    d'.issued = d.issued ++ [issue] ∧
    issue.source = .created (d₀.holder Token.zeroToken.keyId) := by
  obtain ⟨d₀, hrun, hflight, -, hholder, hsnap⟩ := exists_creating_adminStore
  obtain ⟨st, events, hrevoke⟩ : ∃ st events, tokenRevoke 1700000000 200 none
      Token.zeroToken.keyId (adminRecord.subject .lists) adminStore.snap d₀.store
        = (st, events, .ok ()) := by
    have hrec : d₀.store.snap.lookupCapability Token.zeroToken.keyId = some adminRecord :=
      congrArg (IdentitySnapshot.lookupCapability · Token.zeroToken.keyId) hsnap
    obtain ⟨st, n, hok⟩ := FileStore.exists_revokeCapability hrec
    simp only [tokenRevoke, hok]
    exact ⟨_, _, rfl⟩
  obtain ⟨d, d', issue, h₁, h₂, -, hissued, hsource⟩ :=
    @Step.exists_created Unit Token.sampleCrypto .lists (fun _ _ ↦ .ok false) (fun _ ↦ "")
      { d₀ with store := st } _ () _ _ _ hflight (by decide) (by decide)
  exact ⟨d₀, d, d', st, events, issue, hrun, hrevoke, .single h₁, h₂, hissued,
    hholder ▸ hsource⟩

/-- Its token is the last that the zero token gets. -/
theorem revocation_cuts_off_onTheWay : ∃ (d₀ d : Daemon Unit .lists) (i : Unit)
    (subject : Subject .lists),
    (d₀.flight i).caller = some (subject, d₀.holder Token.zeroToken.keyId) ∧
      (d.flight i).caller = none := by
  obtain ⟨d₀, d, d', st, events, issue, hrun, hrevoke, hlater, hstep, hissued, hsource⟩ :=
    exists_onTheWay_adminStore
  obtain ⟨i, subject, hi, -, hdone⟩ :=
    (revocation_cuts_off hrun hrevoke hlater).2.2 d' issue hstep hissued hsource
  exact ⟨d₀, d', i, subject, hi, hdone⟩

/-- It is not so that a revocation keeps a capability from creating others. -/
theorem not_forall_cut_off :
    ¬ ∀ (d₀ d d' : Daemon Unit .lists) (store st : FileStore) (k : String) (now latencyUs : UInt64)
      (fault : Option StoreError) (revoker : Subject .lists) (snap : IdentitySnapshot)
      (events : List AuditEvent) (issue : Issue),
      Reaches Token.sampleCrypto .lists (fun _ _ ↦ .ok false) (fun _ ↦ "")
        (Daemon.start .lists store) d₀ →
      tokenRevoke now latencyUs fault k revoker snap d₀.store = (st, events, .ok ()) →
      Reaches Token.sampleCrypto .lists (fun _ _ ↦ .ok false) (fun _ ↦ "")
        { d₀ with store := st } d →
      Step Token.sampleCrypto .lists (fun _ _ ↦ .ok false) (fun _ ↦ "") d d' →
      d'.issued = d.issued ++ [issue] → issue.source ≠ .created (d₀.holder k) := by
  intro h
  obtain ⟨d₀, d, d', st, events, issue, hrun, hrevoke, hlater, hstep, hissued, hsource⟩ :=
    exists_onTheWay_adminStore
  exact h d₀ d d' _ _ _ _ _ _ _ _ events issue hrun hrevoke hlater hstep hissued hsource

end Vaiexia.Api
