import Mathlib.Logic.Relation
import Vaiexia.Api.AuthMethods

/-!
# Authority only shrinks

Requests that issue capabilities, interleaved with each other and with everything else that changes
the identity store.  A request to `auth.token.create` authenticates, resolves the owner of the new
token and adds it, each against the store of that moment; a login looks up the account and adds.

Key ids are drawn at random and could be drawn twice, so that capabilities are told apart as
`Individual`s: `issued` has everything that was added, with what it was issued for, and `holder`
says which individual the store holds under a key id.  Neither is part of the program.

`Step.effect` says what a step can do, once for all invariants.  `Daemon.Inv` ties the scopes of a
record, and the scope set that a request carries since it authenticated, to an individual;
`authority_shrinks` follows from it along a chain of creations.
-/

namespace Vaiexia.Api

open Vaiexia.Lib Vaiexia.Audit Vaiexia.Auth

/-! ## Individuals -/

/-- A capability that was there at the start, or the one that was issued as number `n`. -/
inductive Individual where
  | initial (keyId : String)
  | issued (n : Nat)
deriving DecidableEq

/-- What a capability was issued for. -/
inductive Source where
  | created (parent : Individual)
  | loggedIn (acc : AccountRecord)
  | claimed

/-- A capability as it was issued. -/
structure Issue where
  record : CapabilityRecord
  source : Source

/-- The scopes of an individual. -/
def scopesOf (s₀ : IdentitySnapshot) (issued : List Issue) : Individual → Option (List String)
  | .initial keyId => (s₀.lookupCapability keyId).map CapabilityRecord.scopes
  | .issued n => issued[n]?.map fun issue ↦ issue.record.scopes

/-- The second was created by a request that authenticated with the first. -/
def Parent (issued : List Issue) (k k' : Individual) : Prop :=
  ∃ n issue, k' = .issued n ∧ issued[n]? = some issue ∧ issue.source = .created k

/-- What is issued later changes nothing. -/
theorem scopesOf_append {s₀ : IdentitySnapshot} {issued more : List Issue} {k : Individual}
    {scopes : List String} (h : scopesOf s₀ issued k = some scopes) :
    scopesOf s₀ (issued ++ more) k = some scopes := by
  cases k with
  | initial keyId => exact h
  | issued n =>
      obtain ⟨issue, hn, rfl⟩ := Option.map_eq_some_iff.mp h
      have hlt : n < issued.length := (List.getElem?_eq_some_iff.mp hn).1
      rw [scopesOf, List.getElem?_append_left hlt, hn]
      rfl

/-! ## Runs -/

/-- How far a request has come. -/
inductive Flight (core : ScopeSets) where
  | idle
  | creating (p : TokenCreateParams) (subject : Subject core) (caller : Individual)
  | resolved (p : TokenCreateParams) (subject : Subject core) (caller : Individual)
      (snap : IdentitySnapshot)
  | loggingIn (p : LoginParams) (snap : IdentitySnapshot)

/-- The caller of a request that creates a token, with its subject. -/
def Flight.caller {core : ScopeSets} : Flight core → Option (Subject core × Individual)
  | .creating _ subject caller | .resolved _ subject caller _ => some (subject, caller)
  | _ => none

/-- The store, the requests that are being handled, and what has been issued. -/
structure Daemon (ι : Type) (core : ScopeSets) where
  store : FileStore
  flight : ι → Flight core
  issued : List Issue
  holder : String → Individual

/-- The registration of `auth.token.create`. -/
def tokenCreateMethod : Registered := ⟨"auth.token.create", some "auth.admin", .denyOnly⟩

theorem tokenCreateMethod_mem_service : tokenCreateMethod ∈ service := by decide

section Runs

variable {ι : Type} [DecidableEq ι] (X : TokenCrypto) (core : ScopeSets)
  (verifyPassword : String → String → Except String Bool)
  (debugStrings : List String → String)

namespace Daemon

/-- A daemon without requests. -/
def start (store : FileStore) : Daemon ι core where
  store := store
  flight := fun _ ↦ .idle
  issued := []
  holder := .initial

variable {core}

/-- A request enters a phase. -/
def set (i : ι) (f : Flight core) (d : Daemon ι core) : Daemon ι core :=
  { d with flight := Function.update d.flight i f }

@[simp] theorem set_flight_self (i : ι) (f : Flight core) (d : Daemon ι core) :
    (d.set i f).flight i = f := by simp [set]

theorem set_flight_of_ne {i j : ι} (h : j ≠ i) (f : Flight core) (d : Daemon ι core) :
    (d.set i f).flight j = d.flight j := by simp [set, h]

/-- A capability was added. -/
def issue (record : CapabilityRecord) (source : Source) (d : Daemon ι core) : Daemon ι core :=
  { d with
    issued := d.issued ++ [⟨record, source⟩]
    holder := Function.update d.holder record.keyId (.issued d.issued.length) }

end Daemon

/-- One step of a request, or anything else that happens to the store. -/
inductive Step : Daemon ι core → Daemon ι core → Prop
  /-- The dispatch of `auth.token.create` up to the handler. -/
  | authenticate {d : Daemon ι core} {i : ι} {p : TokenCreateParams} {subject : Subject core}
      {token keyId : String} {secret : Bytes} {clock : Clock} {guardNow : UInt64}
      {st : FileStore} {events : List AuditEvent} (hi : d.flight i = .idle)
      (hparse : Token.parse X token = some (keyId, secret))
      (h : dispatch X core clock guardNow (some token) tokenCreateMethod d.store
        = (st, events, .ok subject)) :
      Step d { d.set i (.creating p subject (d.holder keyId)) with store := st }
  | resolve {d : Daemon ι core} {i : ι} {p : TokenCreateParams} {subject : Subject core}
      {caller : Individual} (hi : d.flight i = .creating p subject caller) :
      Step d (d.set i (.resolved p subject caller d.store.snap))
  | create {d : Daemon ι core} {i : ι} {p : TokenCreateParams} {subject : Subject core}
      {caller : Individual} {snap : IdentitySnapshot} {now : Readings} {bytes : TokenBytes}
      {fault : Option StoreError} {st : FileStore} {events : List AuditEvent}
      {resp : TokenCreateResponse} (hi : d.flight i = .resolved p subject caller snap)
      (h : tokenCreate X debugStrings now bytes fault p subject snap d.store
        = (st, events, .ok resp)) :
      Step d { (d.set i .idle).issue
        (tokenCreateRecord X now bytes p (resolveOwnerSubjectId subject snap)) (.created caller)
        with store := st }
  | createFails {d : Daemon ι core} {i : ι} {p : TokenCreateParams} {subject : Subject core}
      {caller : Individual} {snap : IdentitySnapshot} {now : Readings} {bytes : TokenBytes}
      {fault : Option StoreError} {st : FileStore} {events : List AuditEvent}
      {diag : Diagnostic} (hi : d.flight i = .resolved p subject caller snap)
      (h : tokenCreate X debugStrings now bytes fault p subject snap d.store
        = (st, events, .error diag)) : Step d { d.set i .idle with store := st }
  | lookUp {d : Daemon ι core} {i : ι} {p : LoginParams} (hi : d.flight i = .idle) :
      Step d (d.set i (.loggingIn p d.store.snap))
  | login {d : Daemon ι core} {i : ι} {p : LoginParams} {snap : IdentitySnapshot}
      {checked : Except Nat Unit} {now : Readings} {bytes : TokenBytes}
      {fault : Option StoreError} {st : FileStore} {events : List AuditEvent}
      {resp : LoginResponse} {acc : AccountRecord} (hi : d.flight i = .loggingIn p snap)
      (hacc : snap.lookupAccount p.name = some acc)
      (h : login X verifyPassword checked now bytes fault p snap d.store
        = (st, events, .ok resp)) :
      Step d { (d.set i .idle).issue (loginRecord X now bytes p acc) (.loggedIn acc)
        with store := st }
  | loginFails {d : Daemon ι core} {i : ι} {p : LoginParams} {snap : IdentitySnapshot}
      {checked : Except Nat Unit} {now : Readings} {bytes : TokenBytes}
      {fault : Option StoreError} {st : FileStore} {events : List AuditEvent}
      {diag : Diagnostic} (hi : d.flight i = .loggingIn p snap)
      (h : login X verifyPassword checked now bytes fault p snap d.store
        = (st, events, .error diag)) : Step d { d.set i .idle with store := st }
  /-- The capability that a bootstrap claim adds. -/
  | claim {d : Daemon ι core} {record : CapabilityRecord} {fault : Option StoreError}
      {st : FileStore} {n : Nat} (h : d.store.addCapability fault record = (st, .ok n)) :
      Step d { d.issue record .claimed with store := st }
  /-- Revocations, touches, flushes, prunes and new accounts. -/
  | call {d : Daemon ι core} (call : StoreCall) (fault : Option StoreError)
      (hcall : ¬ call.AddsCapability) : Step d { d with store := (call.run fault d.store).1 }

/-- Any number of steps. -/
abbrev Reaches : Daemon ι core → Daemon ι core → Prop :=
  Relation.ReflTransGen (Step X core verifyPassword debugStrings)

end Runs

/-! ## The invariant -/

/-- Every scope set in use is that of an individual: those of the records in the store, and those
that requests carry. -/
structure Daemon.Inv {ι : Type} {core : ScopeSets} (s₀ : IdentitySnapshot) (d : Daemon ι core) :
    Prop where
  held : ∀ k rec, d.store.snap.lookupCapability k = some rec →
    scopesOf s₀ d.issued (d.holder k) = some rec.scopes
  carried : ∀ i subject caller, (d.flight i).caller = some (subject, caller) →
    ∃ scopes, scopesOf s₀ d.issued caller = some scopes ∧ subject.scopes = core.fromIter scopes
  created : ∀ issue ∈ d.issued, ∀ caller, issue.source = .created caller →
    ∃ scopes, scopesOf s₀ d.issued caller = some scopes ∧ issue.record.scopes ⊆ scopes
  loggedIn : ∀ issue ∈ d.issued, ∀ acc, issue.source = .loggedIn acc →
    issue.record.scopes ⊆ acc.scopes

section Steps

variable {ι : Type} {X : TokenCrypto} {core : ScopeSets}
  {verifyPassword : String → String → Except String Bool}
  {debugStrings : List String → String} {s₀ : IdentitySnapshot} {d d' : Daemon ι core}

/-- No caller is new: each request has the one it had, or is done. -/
def Daemon.CallersStay (d d' : Daemon ι core) : Prop :=
  ∀ j, (d'.flight j).caller = none ∨ (d'.flight j).caller = (d.flight j).caller

theorem Daemon.callersStay_set [DecidableEq ι] (d : Daemon ι core) {i : ι} {f : Flight core}
    (hf : f.caller = none ∨ f.caller = (d.flight i).caller) : d.CallersStay (d.set i f) := by
  intro j
  rcases eq_or_ne j i with rfl | hne
  · rwa [Daemon.set_flight_self]
  · exact .inr (congrArg Flight.caller (Daemon.set_flight_of_ne hne f d))

namespace Daemon.Inv

theorem start (store : FileStore) :
    Daemon.Inv store.snap (Daemon.start core store : Daemon ι core) where
  held := fun _ _ hk ↦ congrArg (Option.map CapabilityRecord.scopes) hk
  carried := fun _ _ _ h ↦ nomatch h
  created := fun _ h ↦ nomatch h
  loggedIn := fun _ h ↦ nomatch h

/-- A step that issues nothing: the records may age, and no request may come by a scope set that
belongs to nobody. -/
theorem of_aged (h : d.Inv s₀) (hissued : d'.issued = d.issued) (hholder : d'.holder = d.holder)
    (haged : d.store.snap.Aged d'.store.snap)
    (hcarried : ∀ i subject caller, (d'.flight i).caller = some (subject, caller) →
      ∃ scopes, scopesOf s₀ d.issued caller = some scopes ∧
        subject.scopes = core.fromIter scopes) : d'.Inv s₀ where
  held := by
    intro k rec' hk
    obtain ⟨rec, hrec, hages⟩ := haged k rec' hk
    rw [hissued, hholder, hages.scopes_eq]
    exact h.held k rec hrec
  carried := by
    rw [hissued]
    exact hcarried
  created := by
    rw [hissued]
    exact h.created
  loggedIn := by
    rw [hissued]
    exact h.loggedIn

/-- A step that issues a capability. -/
theorem issue (h : d.Inv s₀) {record : CapabilityRecord} {source : Source}
    (hsnap : d'.store.snap = d.store.snap.addCapability record)
    (hissued : d'.issued = d.issued ++ [⟨record, source⟩])
    (hholder : d'.holder = Function.update d.holder record.keyId (.issued d.issued.length))
    (hcarried : ∀ i subject caller, (d'.flight i).caller = some (subject, caller) →
      ∃ scopes, scopesOf s₀ d.issued caller = some scopes ∧
        subject.scopes = core.fromIter scopes)
    (hcreated : ∀ caller, source = .created caller →
      ∃ scopes, scopesOf s₀ d.issued caller = some scopes ∧ record.scopes ⊆ scopes)
    (hloggedIn : ∀ acc, source = .loggedIn acc → record.scopes ⊆ acc.scopes) : d'.Inv s₀ where
  held := by
    intro k rec hk
    rw [hsnap, IdentitySnapshot.lookupCapability_addCapability] at hk
    rw [hissued, hholder]
    split at hk
    · rename_i heq
      obtain rfl := Option.some.inj hk
      rw [heq]
      simp [scopesOf]
    · rename_i hne
      rw [Function.update_of_ne hne]
      exact scopesOf_append (h.held k rec hk)
  carried := by
    intro i subject caller hi
    obtain ⟨scopes, hscopes, heq⟩ := hcarried i subject caller hi
    exact ⟨scopes, hissued ▸ scopesOf_append hscopes, heq⟩
  created := by
    intro issue hmem caller hsource
    rw [hissued] at hmem ⊢
    rcases List.mem_append.mp hmem with hmem | hmem
    · obtain ⟨scopes, hscopes, hsub⟩ := h.created issue hmem caller hsource
      exact ⟨scopes, scopesOf_append hscopes, hsub⟩
    · rw [List.mem_singleton.mp hmem] at hsource ⊢
      obtain ⟨scopes, hscopes, hsub⟩ := hcreated caller hsource
      exact ⟨scopes, scopesOf_append hscopes, hsub⟩
  loggedIn := by
    intro issue hmem acc hsource
    rw [hissued] at hmem
    rcases List.mem_append.mp hmem with hmem | hmem
    · exact h.loggedIn issue hmem acc hsource
    · rw [List.mem_singleton.mp hmem] at hsource ⊢
      exact hloggedIn acc hsource

/-- Requests that have the callers they had. -/
theorem carried_of_stay (h : d.Inv s₀) (hstay : d.CallersStay d') :
    ∀ i subject caller, (d'.flight i).caller = some (subject, caller) →
      ∃ scopes, scopesOf s₀ d.issued caller = some scopes ∧
        subject.scopes = core.fromIter scopes := by
  intro i subject caller hi
  rcases hstay i with hnone | hsame
  · rw [hnone] at hi
    cases hi
  · exact h.carried i subject caller (hsame.symm.trans hi)

end Daemon.Inv

/-- What a dispatch that reaches the handler of `auth.token.create` read, and left in the store. -/
theorem dispatch_tokenCreate {clock : Clock} {guardNow : UInt64} {token keyId : String}
    {secret : Bytes} {st st' : FileStore} {events : List AuditEvent} {subject : Subject core}
    (hparse : Token.parse X token = some (keyId, secret))
    (h : dispatch X core clock guardNow (some token) tokenCreateMethod st
      = (st', events, .ok subject)) :
    st'.snap = st.snap ∧ ∃ rec, Authentic X clock.expiry (some token) st.snap keyId rec ∧
      subject = rec.subject core := by
  have hok := (dispatch_ok_iff.mp (congrArg (fun r ↦ r.2.2) h)).1
  obtain ⟨keyId', rec, hauth, rfl⟩ := verifyAuthenticated_ok_iff.mp hok
  obtain ⟨token', secret', htoken, hparse', hrec⟩ := hauth
  obtain rfl := Option.some.inj htoken
  obtain ⟨rfl, rfl⟩ := Prod.mk.inj (Option.some.inj (hparse.symm.trans hparse'))
  have hsnap := dispatch_snap X core clock guardNow (some token) tokenCreateMethod st
  rw [h] at hsnap
  exact ⟨hsnap, rec, ⟨token, secret, rfl, hparse, hrec⟩, rfl⟩

/-- What a step can do: a request authenticates, nothing is issued, or one capability is, in the
last case with the caller that the creation of a token had. -/
inductive Effect (X : TokenCrypto) (d d' : Daemon ι core) : Prop
  | authenticates {i : ι} {now : UInt64} {token keyId : String} {rec : CapabilityRecord}
      (hauth : Authentic X now (some token) d.store.snap keyId rec)
      (hcaller : (d'.flight i).caller = some (rec.subject core, d.holder keyId))
      (hothers : ∀ j ≠ i, (d'.flight j).caller = (d.flight j).caller)
      (hsnap : d'.store.snap = d.store.snap) (hissued : d'.issued = d.issued)
      (hholder : d'.holder = d.holder)
  | keeps (hstay : d.CallersStay d') (haged : d.store.snap.Aged d'.store.snap)
      (hissued : d'.issued = d.issued) (hholder : d'.holder = d.holder)
  | issues {record : CapabilityRecord} {source : Source} (hstay : d.CallersStay d')
      (hsnap : d'.store.snap = d.store.snap.addCapability record)
      (hissued : d'.issued = d.issued ++ [⟨record, source⟩])
      (hholder : d'.holder
        = Function.update d.holder record.keyId (.issued d.issued.length))
      (hcreated : ∀ caller, source = .created caller → ∃ i subject,
        (d.flight i).caller = some (subject, caller) ∧ (d'.flight i).caller = none ∧
          ∀ s ∈ record.scopes, core.contains subject.scopes s = true)
      (hloggedIn : ∀ acc, source = .loggedIn acc → record.scopes ⊆ acc.scopes)

/-- **What a step does.** -/
theorem Step.effect [DecidableEq ι] (hstep : Step X core verifyPassword debugStrings d d') :
    Effect X d d' := by
  cases hstep with
  | @authenticate i p subject token keyId secret clock guardNow st events hi hparse hdispatch =>
      obtain ⟨hsnap, rec, hauth, rfl⟩ := dispatch_tokenCreate hparse hdispatch
      refine .authenticates (i := i) hauth ?_ (fun j hj ↦ ?_) hsnap rfl rfl
      · exact congrArg Flight.caller (d.set_flight_self i _)
      · exact congrArg Flight.caller (Daemon.set_flight_of_ne hj _ d)
  | resolve hi =>
      exact .keeps (d.callersStay_set (.inr (by rw [hi]; rfl))) (.refl _) rfl rfl
  | @create i p subject caller snap now bytes fault st events resp hi hcreate =>
      rcases tokenCreate_cases X debugStrings now bytes fault p subject snap d.store with
        ⟨st', events', diag, h', -⟩ | ⟨st', events', resp', h', hholds, hsnap⟩
      · cases hcreate.symm.trans h'
      · cases hcreate.symm.trans h'
        refine .issues (d.callersStay_set (.inl rfl)) hsnap rfl rfl ?_ fun _ h ↦ nomatch h
        rintro _ ⟨⟩
        refine ⟨i, subject, by rw [hi]; rfl, ?_, hholds⟩
        exact congrArg Flight.caller (d.set_flight_self i _)
  | @createFails i p subject caller snap now bytes fault st events diag hi hcreate =>
      rcases tokenCreate_cases X debugStrings now bytes fault p subject snap d.store with
        ⟨st', events', diag', h', hsnap⟩ | ⟨st', events', resp', h', -⟩
      · cases hcreate.symm.trans h'
        refine .keeps (d.callersStay_set (.inl rfl)) ?_ rfl rfl
        change d.store.snap.Aged st.snap
        rw [hsnap]
        exact .refl _
      · cases hcreate.symm.trans h'
  | lookUp hi => exact .keeps (d.callersStay_set (.inl rfl)) (.refl _) rfl rfl
  | @login i p snap checked now bytes fault st events resp acc hi hacc hlogin =>
      rcases login_cases X verifyPassword checked now bytes fault p snap d.store with
        ⟨st', events', diag, h', -⟩ | ⟨st', events', resp', acc', h', hacc', hsnap⟩
      · cases hlogin.symm.trans h'
      · cases hlogin.symm.trans h'
        obtain rfl := Option.some.inj (hacc.symm.trans hacc')
        refine .issues (d.callersStay_set (.inl rfl)) hsnap rfl rfl (fun _ h ↦ nomatch h) ?_
        rintro _ ⟨⟩
        exact effectiveScopes_subset acc p.requestedScopes
  | @loginFails i p snap checked now bytes fault st events diag hi hlogin =>
      rcases login_cases X verifyPassword checked now bytes fault p snap d.store with
        ⟨st', events', diag', h', hsnap⟩ | ⟨st', events', resp', acc', h', -⟩
      · cases hlogin.symm.trans h'
        refine .keeps (d.callersStay_set (.inl rfl)) ?_ rfl rfl
        change d.store.snap.Aged st.snap
        rw [hsnap]
        exact .refl _
      · cases hlogin.symm.trans h'
  | @claim record fault st n hadd =>
      rcases addCapability_cases fault record d.store with ⟨e, h'⟩ | ⟨st', n', h', hsnap⟩
      · cases hadd.symm.trans h'
      · cases hadd.symm.trans h'
        exact .issues (fun _ ↦ .inr rfl) hsnap rfl rfl (fun _ h ↦ nomatch h) fun _ h ↦ nomatch h
  | call call fault hcall =>
      exact .keeps (fun _ ↦ .inr rfl) (call.run_aged fault d.store hcall) rfl rfl

/-- **A step keeps the invariant.** -/
theorem Step.inv [DecidableEq ι] (hstep : Step X core verifyPassword debugStrings d d')
    (h : d.Inv s₀) : d'.Inv s₀ := by
  cases hstep.effect with
  | @authenticates i now token keyId rec hauth hcaller hothers hsnap hissued hholder =>
      obtain ⟨-, -, -, -, hrec, -⟩ := hauth
      refine h.of_aged hissued hholder (hsnap ▸ .refl _) fun j subject caller hj ↦ ?_
      rcases eq_or_ne j i with rfl | hne
      · obtain ⟨rfl, rfl⟩ := Prod.mk.inj (Option.some.inj (hcaller.symm.trans hj))
        exact ⟨rec.scopes, h.held keyId rec hrec, rfl⟩
      · exact h.carried j subject caller ((hothers j hne).symm.trans hj)
  | keeps hstay haged hissued hholder =>
      exact h.of_aged hissued hholder haged (h.carried_of_stay hstay)
  | @issues record source hstay hsnap hissued hholder hcreated hloggedIn =>
      refine h.issue hsnap hissued hholder (h.carried_of_stay hstay) ?_ hloggedIn
      intro caller hsource
      obtain ⟨i, subject, hi, -, hholds⟩ := hcreated caller hsource
      obtain ⟨scopes, hscopes, heq⟩ := h.carried i subject caller hi
      refine ⟨scopes, hscopes, fun s hs ↦ ?_⟩
      have hcontains := hholds s hs
      rw [heq] at hcontains
      exact (core.contains_fromIter scopes s).mp hcontains

/-- **A run keeps the invariant.** -/
theorem Reaches.inv [DecidableEq ι] {store : FileStore}
    (h : Reaches X core verifyPassword debugStrings (Daemon.start core store) d) :
    d.Inv store.snap := by
  induction h with
  | refl => exact .start store
  | tail _ hstep ih => exact hstep.inv ih

/-- A child has no scope that its parent lacks. -/
theorem Daemon.Inv.parent_subset (h : d.Inv s₀) {k k' : Individual} (hparent : Parent d.issued k k')
    {scopes' : List String} (hscopes' : scopesOf s₀ d.issued k' = some scopes') :
    ∃ scopes, scopesOf s₀ d.issued k = some scopes ∧ scopes' ⊆ scopes := by
  obtain ⟨n, issue, rfl, hn, hsource⟩ := hparent
  rw [scopesOf, hn] at hscopes'
  obtain rfl := Option.some.inj hscopes'
  exact h.created issue (List.mem_of_getElem? hn) k hsource

/-- Along a chain of creations. -/
theorem Daemon.Inv.descendant_subset (h : d.Inv s₀) {k k' : Individual}
    (hchain : Relation.ReflTransGen (Parent d.issued) k k') {scopes' : List String}
    (hscopes' : scopesOf s₀ d.issued k' = some scopes') :
    ∃ scopes, scopesOf s₀ d.issued k = some scopes ∧ scopes' ⊆ scopes := by
  induction hchain generalizing scopes' with
  | refl => exact ⟨scopes', hscopes', List.Subset.refl _⟩
  | tail _ hparent ih =>
      obtain ⟨scopes, hscopes, hsub⟩ := h.parent_subset hparent hscopes'
      obtain ⟨scopes₀, hscopes₀, hsub₀⟩ := ih hscopes
      exact ⟨scopes₀, hscopes₀, List.Subset.trans hsub hsub₀⟩

/-- **Authority only shrinks.**  In every state that requests can reach:

* whatever was created with a capability, or with one created from it, and so on, has no scope
  that the capability lacks;
* whatever was issued to a login has no scope that the account lacks;
* the record that the store holds has the scopes of the individual it was issued as, and no call
  but the addition of a capability leaves a record whose scopes it did not find. -/
theorem authority_shrinks [DecidableEq ι] {store : FileStore}
    (h : Reaches X core verifyPassword debugStrings (Daemon.start core store) d) :
    (∀ k k', Relation.ReflTransGen (Parent d.issued) k k' → ∀ scopes scopes',
      scopesOf store.snap d.issued k = some scopes →
      scopesOf store.snap d.issued k' = some scopes' → scopes' ⊆ scopes) ∧
    (∀ issue ∈ d.issued, ∀ acc, issue.source = .loggedIn acc →
      issue.record.scopes ⊆ acc.scopes) ∧
    (∀ k rec, d.store.snap.lookupCapability k = some rec →
      scopesOf store.snap d.issued (d.holder k) = some rec.scopes) ∧
    ∀ (call : StoreCall) (fault : Option StoreError), ¬ call.AddsCapability → ∀ k rec',
      (call.run fault d.store).1.snap.lookupCapability k = some rec' →
      ∃ rec, d.store.snap.lookupCapability k = some rec ∧ rec'.scopes = rec.scopes := by
  have hinv := h.inv
  refine ⟨?_, hinv.loggedIn, hinv.held, ?_⟩
  · intro k k' hchain scopes scopes' hscopes hscopes'
    obtain ⟨scopes₀, hscopes₀, hsub⟩ := hinv.descendant_subset hchain hscopes'
    obtain rfl := Option.some.inj (hscopes.symm.trans hscopes₀)
    exact hsub
  · intro call fault hcall k rec' hk
    obtain ⟨rec, hrec, hages⟩ := call.run_aged fault d.store hcall k rec' hk
    exact ⟨rec, hrec, hages.scopes_eq⟩

/-- A request that asks for scopes its caller holds gets them, if the store can be written. -/
theorem Step.exists_created [DecidableEq ι] {i : ι} {p : TokenCreateParams} {subject : Subject core}
    {caller : Individual} (hi : d.flight i = .creating p subject caller) (hne : p.scopes ≠ [])
    (hholds : ∀ s ∈ p.scopes, core.contains subject.scopes s = true) :
    ∃ d₁ d₂ issue, Step X core verifyPassword debugStrings d d₁ ∧
      Step X core verifyPassword debugStrings d₁ d₂ ∧ d₁.issued = d.issued ∧
      d₂.issued = d₁.issued ++ [issue] ∧ issue.source = .created caller := by
  let d₁ := d.set i (.resolved p subject caller d.store.snap)
  obtain ⟨st, events, resp, hcreate⟩ :=
    @tokenCreate_granted X core debugStrings ⟨1700000000, 1700000000, 1700000000, 350⟩
      ⟨List.replicate 10 0xff, List.replicate 32 0xff⟩ p subject d.store.snap d.store hne hholds
  exact ⟨d₁, _, _, .resolve hi, .create (d.set_flight_self i _) hcreate, rfl, rfl, rfl⟩

end Steps

/-- A capability that may create others, under the zero token. -/
def adminRecord : CapabilityRecord :=
  { readerRecord with scopes := ["auth.admin", "server.read"], expiresAt := none }

/-- A store with that capability only. -/
def adminStore : FileStore where
  file := some (IdentitySnapshot.default.addCapability adminRecord).toJson
  snap := IdentitySnapshot.default.addCapability adminRecord
  pendingTouch := ∅

/-- The zero token may call `auth.token.create`. -/
theorem exists_dispatch_adminStore : ∃ st events,
    dispatch Token.sampleCrypto .lists ⟨1700000000, 0, 0⟩ 0 (some Token.zeroToken.capability)
      tokenCreateMethod adminStore = (st, events, .ok (adminRecord.subject .lists)) := by
  have hauth : Authentic Token.sampleCrypto 1700000000 (some Token.zeroToken.capability)
      adminStore.snap Token.zeroToken.keyId adminRecord :=
    ⟨_, _, rfl, Token.parse_zeroToken, rfl, rfl, rfl, fun _ h ↦ nomatch h⟩
  have hok : (dispatch Token.sampleCrypto .lists ⟨1700000000, 0, 0⟩ 0
      (some Token.zeroToken.capability) tokenCreateMethod adminStore).2.2
        = .ok (adminRecord.subject .lists) := by
    refine dispatch_ok_iff.mpr ⟨verifyAuthenticated_ok_iff.mpr ⟨_, _, hauth, rfl⟩, fun s hs ↦ ?_⟩
    rw [← Option.some.inj hs]
    decide
  rcases hdispatch : dispatch Token.sampleCrypto .lists ⟨1700000000, 0, 0⟩ 0
      (some Token.zeroToken.capability) tokenCreateMethod adminStore with ⟨st, events, result⟩
  rw [hdispatch] at hok
  obtain rfl : result = .ok (adminRecord.subject .lists) := hok
  exact ⟨st, events, rfl⟩

/-- A request for a capability that reads, of which the zero token is the caller. -/
theorem exists_creating_adminStore : ∃ d : Daemon Unit .lists,
    Reaches Token.sampleCrypto .lists (fun _ _ ↦ .ok false) (fun _ ↦ "")
      (Daemon.start .lists adminStore) d ∧
    d.flight () = .creating ⟨"ci", ["server.read"], none⟩ (adminRecord.subject .lists)
      (.initial Token.zeroToken.keyId) ∧
    d.issued = [] ∧ d.holder = .initial ∧ d.store.snap = adminStore.snap := by
  obtain ⟨st, events, hdispatch⟩ := exists_dispatch_adminStore
  let start : Daemon Unit .lists := Daemon.start .lists adminStore
  let flight : Flight .lists := .creating ⟨"ci", ["server.read"], none⟩
    (adminRecord.subject .lists) (.initial Token.zeroToken.keyId)
  have hsnap := (dispatch_tokenCreate Token.parse_zeroToken hdispatch).1
  exact ⟨{ start.set () flight with store := st },
    .single (.authenticate rfl Token.parse_zeroToken hdispatch),
    start.set_flight_self () flight, rfl, rfl, hsnap⟩

/-- It creates one that reads. -/
theorem authority_shrinks_oneCreation :
    ∃ d : Daemon Unit .lists,
      Reaches Token.sampleCrypto .lists (fun _ _ ↦ .ok false) (fun _ ↦ "")
        (Daemon.start .lists adminStore) d ∧
      Parent d.issued (.initial Token.zeroToken.keyId) (.issued 0) ∧
      ∀ scopes, scopesOf adminStore.snap d.issued (.issued 0) = some scopes →
        scopes ⊆ ["auth.admin", "server.read"] := by
  obtain ⟨d, hrun, hflight, hissued, -⟩ := exists_creating_adminStore
  obtain ⟨d₁, d₂, issue, h₁, h₂, hissued₁, hissued₂, hsource⟩ :=
    Step.exists_created hflight (by decide) (by decide)
  have hrun₂ := (hrun.tail h₁).tail h₂
  have hparent : Parent d₂.issued (.initial Token.zeroToken.keyId) (.issued 0) :=
    ⟨0, issue, rfl, by rw [hissued₂, hissued₁, hissued]; rfl, hsource⟩
  refine ⟨d₂, hrun₂, hparent, fun scopes hscopes ↦ ?_⟩
  exact (authority_shrinks hrun₂).1 _ _ (.single hparent) _ _ rfl hscopes

end Vaiexia.Api
