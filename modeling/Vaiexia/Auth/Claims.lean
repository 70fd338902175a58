import Vaiexia.Auth.Bootstrap

/-!
# How a claim ends

Two edges of `BootstrapState::claim`.  The comparison of the code pads both sides with zero bytes
to hide their lengths, and so takes the code with zeros behind it for the code.  And the success
path writes the account before the capability, and keeps it when the second write fails.
-/

namespace Vaiexia.Auth

open Vaiexia.Lib

/-! ## Zero-padded comparison -/

/-- One byte string is the other, or the other with zeros behind it. -/
theorem constantTimeEq_iff {a b : Bytes} :
    constantTimeEq a b = true ↔
      ∃ n, a = b ++ List.replicate n 0 ∨ b = a ++ List.replicate n 0 := by
  have hpad : ∀ {a b : Bytes}, a.length ≤ b.length →
      (constantTimeEq a b = true ↔ b = a ++ List.replicate (b.length - a.length) 0) := by
    intro a b hle
    rw [constantTimeEq, Nat.max_eq_right hle, Nat.sub_self, List.replicate_zero, List.append_nil,
      beq_iff_eq, eq_comm]
  have hsymm : constantTimeEq a b = constantTimeEq b a := by
    simp only [constantTimeEq, Nat.max_comm b.length]
    exact Bool.beq_comm
  constructor
  · intro h
    rcases Nat.le_total a.length b.length with hle | hle
    · exact ⟨_, .inr ((hpad hle).mp h)⟩
    · exact ⟨_, .inl ((hpad hle).mp (hsymm ▸ h))⟩
  · rintro ⟨n, rfl | rfl⟩
    · rw [hsymm, hpad (by simp)]
      simp
    · rw [hpad (by simp)]
      simp

/-- Zero bytes are the encoding of zero characters. -/
theorem encode_replicate_nul (n : Nat) :
    Utf8.encode (List.replicate n '\x00') = List.replicate n 0 := by
  induction n with
  | zero => rfl
  | succ n ih =>
      rw [List.replicate_succ, Utf8.encode_cons, ih]
      rfl

/-- A text is taken for a generated code if it is the code, with any number of zeros behind it. -/
theorem isRight_iff {presented : String} {code : BootstrapCode} :
    isRight presented code = true ↔
      ∃ n, presented = code.text ++ String.ofList (List.replicate n '\x00') := by
  rw [isRight, constantTimeEq_iff]
  constructor
  · rintro ⟨n, h | h⟩
    · rw [← encode_replicate_nul, ← Utf8.encode_append] at h
      refine ⟨n, String.toList_injective ?_⟩
      rw [String.toList_append, String.toList_ofList]
      exact Utf8.encode_injective h
    · rw [← encode_replicate_nul, ← Utf8.encode_append] at h
      have hcode := Utf8.encode_injective h
      cases n with
      | zero =>
          refine ⟨0, String.toList_injective ?_⟩
          rw [String.toList_append, hcode]
          simp
      | succ n =>
          -- no character of a code is a zero
          have hmem : '\x00' ∈ code.text.toList := by
            rw [hcode, List.replicate_succ]
            exact List.mem_append_right _ List.mem_cons_self
          exact absurd (code.base32 _ hmem) (by decide)
  · rintro ⟨n, rfl⟩
    refine ⟨n, .inl ?_⟩
    rw [String.toList_append, String.toList_ofList, Utf8.encode_append, encode_replicate_nul]

/-- The claim is not turned away for its code. -/
def PassesCode (r : ClaimOutcome) : Prop := r ≠ .error .badCode ∧ r ≠ .error .rateLimited

/-- Before the window expires a claim passes with what is taken for the current code. -/
theorem Session.passesCode_iff (X : TokenCrypto) {env : ClaimEnv} {p : ClaimParams} {s : Session}
    {w : Window} (hstate : s.state = .active w) (hfresh : w.isExpired env = false) :
    PassesCode (s.claim X env p).2 ↔ isRight p.code w.code = true := by
  have hrejected := Session.claim_rejected_iff X env p hstate
  have hsame : (w.refresh env s.codeFile).1 = w := by
    rw [Window.refresh, hfresh]
    rfl
  rw [PassesCode, ← not_or, hrejected, hsame, Bool.not_eq_false]

/-- **When the comparison of codes is equality.**  `constant_time_eq` tells two byte strings apart
unless one of them is the other with zero bytes behind it; and a claim, while the window has not
expired, lets nothing but the current code pass unless it is the code with zeros behind it. -/
theorem code_comparison_iff (a b : Bytes) (X : TokenCrypto) {env : ClaimEnv} (p : ClaimParams)
    {s : Session} {w : Window} (hstate : s.state = .active w) (hfresh : w.isExpired env = false) :
    ((constantTimeEq a b = true ↔ a = b) ↔
      ∀ n, a ≠ b ++ List.replicate (n + 1) 0 ∧ b ≠ a ++ List.replicate (n + 1) 0) ∧
    ((PassesCode (s.claim X env p).2 ↔ p.code = w.code.text) ↔
      ∀ n, p.code ≠ w.code.text ++ String.ofList (List.replicate (n + 1) '\x00')) := by
  constructor
  · rw [constantTimeEq_iff]
    constructor
    · intro hexact n
      refine ⟨fun h ↦ ?_, fun h ↦ ?_⟩
      · have hlen := congrArg List.length (h.symm.trans (hexact.mp ⟨n + 1, .inl h⟩))
        simp at hlen
      · have hlen := congrArg List.length (h.symm.trans (hexact.mp ⟨n + 1, .inr h⟩).symm)
        simp at hlen
    · intro hnever
      refine ⟨fun ⟨n, h⟩ ↦ ?_, fun h ↦ ⟨0, .inl (by simp [h])⟩⟩
      cases n with
      | zero =>
          rcases h with h | h
          · simpa using h
          · simpa using h.symm
      | succ n => exact (h.elim (hnever n).1 (hnever n).2).elim
  · rw [Session.passesCode_iff X hstate hfresh, isRight_iff]
    constructor
    · intro hexact n h
      have hlen := congrArg (fun t ↦ t.toList.length) (h.symm.trans (hexact.mp ⟨n + 1, h⟩))
      simp at hlen
    · intro hnever
      refine ⟨fun ⟨n, h⟩ ↦ ?_, fun h ↦ ⟨0, by simp [h]⟩⟩
      cases n with
      | zero => simpa using h
      | succ n => exact absurd h (hnever n)

/-- A claim that presents the code with a zero behind it. -/
def paddedClaim : ClaimParams := { firstClaim with code := zeroCode.text ++ "\x00" }

/-- **The comparison of codes is not equality.** -/
theorem not_code_comparison :
    (¬ ∀ a b : Bytes, constantTimeEq a b = true ↔ a = b) ∧
    ¬ ∀ (X : TokenCrypto) (env : ClaimEnv) (p : ClaimParams) (s : Session) (w : Window),
      s.state = .active w → w.isExpired env = false →
      (PassesCode (s.claim X env p).2 ↔ p.code = w.code.text) := by
  refine ⟨fun h ↦ ?_, fun h ↦ ?_⟩
  · have hsame := (h [0x78] [0x78, 0x00]).mp (by decide)
    cases hsame
  · have hright : isRight paddedClaim.code zeroCode = true := isRight_iff.mpr ⟨1, rfl⟩
    have hstate : openSession.state = .active ⟨zeroCode, 0, 1700000000, defaultTtlSecs⟩ := rfl
    have hpasses := (Session.passesCode_iff Token.sampleCrypto hstate
      (by decide : Window.isExpired minuteLater _ = false)).mpr hright
    have hsame := (h Token.sampleCrypto minuteLater paddedClaim openSession _ hstate
      (by decide)).mp hpasses
    have hlen := congrArg (fun t ↦ t.toList.length) hsame
    revert hlen
    decide

/-- These are two of the exceptions. -/
theorem code_comparison_iff_paddedClaim :
    ¬ (constantTimeEq [0x78, 0x00] [0x78] = true ↔ [0x78, 0x00] = [(0x78 : UInt8)]) ∧
    ¬ (PassesCode (openSession.claim Token.sampleCrypto minuteLater paddedClaim).2 ↔
      paddedClaim.code = zeroCode.text) := by
  have hstate : openSession.state = .active ⟨zeroCode, 0, 1700000000, defaultTtlSecs⟩ := rfl
  have hboth := code_comparison_iff [0x78, 0x00] [0x78] Token.sampleCrypto paddedClaim hstate
    (by decide : Window.isExpired minuteLater _ = false)
  exact ⟨fun hexact ↦ (hboth.1.mp hexact 0).1 rfl, fun hexact ↦ hboth.2.mp hexact 0 rfl⟩

/-! ## What a failed claim leaves -/

/-- The same accounts and the same capabilities. -/
structure IdentitySnapshot.Same (s s' : IdentitySnapshot) : Prop where
  accounts : ∀ name, s'.lookupAccount name = s.lookupAccount name
  capabilities : ∀ k, s'.lookupCapability k = s.lookupCapability k

theorem IdentitySnapshot.Same.refl (s : IdentitySnapshot) : s.Same s := ⟨fun _ ↦ rfl, fun _ ↦ rfl⟩

/-- Adding an account changes nothing if and only if it is there already. -/
theorem IdentitySnapshot.same_addAccount_iff {rec : AccountRecord} {s : IdentitySnapshot} :
    s.Same (s.addAccount rec) ↔ s.lookupAccount rec.name = some rec := by
  have hlookup : ∀ name, (s.addAccount rec).lookupAccount name
      = if name = rec.name then some rec else s.lookupAccount name := fun name ↦
    HashMap.lookup_insert_eq rec.name name rec s.accounts
  constructor
  · intro h
    rw [← h.accounts, hlookup, if_pos rfl]
  · intro hthere
    refine ⟨fun name ↦ ?_, fun _ ↦ rfl⟩
    rw [hlookup]
    split
    · rename_i heq
      rw [heq, hthere]
    · rfl

/-- The success path writes a new account and cannot write the capability. -/
def HalfDone (env : ClaimEnv) (p : ClaimParams) (store : FileStore) : Prop :=
  ∃ phc, env.hashPassword p.password = .ok phc ∧ env.accountFault = none ∧
    env.capabilityFault.isSome = true ∧
    store.snap.lookupAccount p.adminName ≠ some (adminAccount p phc)

/-- What the success path writes, by what fails: nothing, the account alone, or both records. -/
theorem Session.createAdmin_writes (X : TokenCrypto) (env : ClaimEnv) (p : ClaimParams)
    (s : Session) :
    ((∃ e, s.createAdmin X env p = (s, .error e)) ∧
      ∀ phc, env.hashPassword p.password = .ok phc → env.accountFault ≠ none) ∨
    (∃ phc e store, env.hashPassword p.password = .ok phc ∧ env.accountFault = none ∧
      env.capabilityFault.isSome = true ∧ s.createAdmin X env p = ({ s with store }, .error e) ∧
      store.snap = s.store.snap.addAccount (adminAccount p phc)) ∨
    (∃ s' r, s.createAdmin X env p = (s', .ok r)) ∧ env.capabilityFault = none := by
  cases hhash : env.hashPassword p.password with
  | error e => exact .inl ⟨⟨.password e, by simp only [createAdmin, hhash]⟩, nofun⟩
  | ok phc =>
      rcases FileStore.mutate_cases env.accountFault (.addAccount (adminAccount p phc)) s.store with
        ⟨e, hadd⟩ | ⟨next, n, hfault, happly, hadd⟩
      · refine .inl ⟨⟨.storeError e.toString, ?_⟩, ?_⟩
        · simp only [createAdmin, hhash, FileStore.addAccount, hadd]
        · intro _ _ hfault
          rw [hfault] at hadd
          cases congrArg Prod.snd hadd
      · obtain ⟨rfl, -⟩ := Prod.mk.inj (Except.ok.inj happly)
        obtain ⟨stored, hsnap, hadd⟩ : ∃ stored : FileStore,
            stored.snap = s.store.snap.addAccount (adminAccount p phc) ∧
              s.store.mutate env.accountFault (.addAccount (adminAccount p phc))
                = (stored, .ok n) := ⟨_, rfl, hadd⟩
        rcases FileStore.mutate_cases env.capabilityFault
            (.addCapability (adminCapability X env p)) stored with
          ⟨e, hcap⟩ | ⟨next, n, hfault', -, hcap⟩
        · refine .inr (.inl ⟨phc, .storeError e.toString, stored, rfl, hfault, ?_, ?_, hsnap⟩)
          · cases hnone : env.capabilityFault with
            | none =>
                rw [hnone] at hcap
                cases congrArg Prod.snd hcap
            | some e => rfl
          · simp only [createAdmin, hhash, FileStore.addAccount, hadd, FileStore.addCapability,
              hcap]
        · refine .inr (.inr ⟨?_, hfault'⟩)
          simp only [createAdmin, hhash, FileStore.addAccount, hadd, FileStore.addCapability, hcap]
          exact ⟨_, _, rfl⟩

/-- The success path, when it fails, leaves the identities or is half done. -/
theorem Session.createAdmin_same_iff (X : TokenCrypto) (env : ClaimEnv) (p : ClaimParams)
    (s : Session) :
    ((∃ e, (s.createAdmin X env p).2 = .error e) →
      s.store.snap.Same (s.createAdmin X env p).1.store.snap) ↔ ¬ HalfDone env p s.store := by
  rcases s.createAdmin_writes X env p with ⟨⟨e, h⟩, hfails⟩ |
    ⟨phc, e, store, hhash, haccount, hcapability, h, hsnap⟩ | ⟨⟨s', r, h⟩, hcapability⟩
  · rw [h]
    refine iff_of_true (fun _ ↦ .refl _) ?_
    rintro ⟨phc, hhash, haccount, -⟩
    exact hfails phc hhash haccount
  · rw [h]
    dsimp only
    rw [hsnap, IdentitySnapshot.same_addAccount_iff]
    constructor
    · rintro hthere ⟨phc', hhash', -, -, hnew⟩
      obtain rfl := Except.ok.inj (hhash.symm.trans hhash')
      exact hnew (hthere ⟨e, rfl⟩)
    · intro hnot _
      by_contra hnew
      exact hnot ⟨phc, hhash, haccount, hcapability, hnew⟩
  · rw [h]
    refine iff_of_true (fun ⟨_, he⟩ ↦ nomatch he) ?_
    rintro ⟨phc, -, -, hsome, -⟩
    rw [hcapability] at hsome
    cases hsome

/-- **When a failed claim changes nothing in the store.**  An open bootstrap whose claim returns an
error has the accounts and capabilities that it had, unless the code was right, the account was
written as a new one, and then the capability could not be written. -/
theorem failed_claim_iff (X : TokenCrypto) (env : ClaimEnv) (p : ClaimParams) (s : Session)
    (w : Window) (hstate : s.state = .active w) :
    ((∃ e, (s.claim X env p).2 = .error e) → s.store.snap.Same (s.claim X env p).1.store.snap) ↔
      ¬ (isRight p.code (w.refresh env s.codeFile).1.code = true ∧ HalfDone env p s.store) := by
  cases hright : isRight p.code (w.refresh env s.codeFile).1.code with
  | true =>
      have hclaim : s.claim X env p = Session.createAdmin X env p { s with
          state := .active (w.refresh env s.codeFile).1
          codeFile := (w.refresh env s.codeFile).2 } := by
        rw [isRight] at hright
        simp only [Session.claim, hstate, hright, Bool.not_true, Bool.false_eq_true, if_false]
      rw [hclaim, eq_self_iff_true, true_and]
      exact Session.createAdmin_same_iff X env p _
  | false =>
      have hstore : (s.claim X env p).1.store = s.store := by
        rw [isRight] at hright
        simp only [Session.claim, hstate, hright, Bool.not_false, if_true]
      rw [hstore]
      exact iff_of_true (fun _ ↦ .refl _) fun h ↦ Bool.false_ne_true h.1

/-! ### A claim whose capability cannot be written -/

/-- A minute later the disk is full, after the account was written. -/
def fullAfterAccount : ClaimEnv :=
  { minuteLater with capabilityFault := some (.io "No space left on device (os error 28)") }

theorem firstClaim_fullAfterAccount :
    (openSession.claim Token.sampleCrypto fullAfterAccount firstClaim).2
      = .error (.storeError "io error: No space left on device (os error 28)") ∧
    (openSession.claim Token.sampleCrypto fullAfterAccount firstClaim).1.store.snap.lookupAccount
      "admin" ≠ none :=
  ⟨rfl, by decide⟩

/-- **A failed claim may leave the account behind.** -/
theorem not_failed_claim :
    ¬ ∀ (X : TokenCrypto) (env : ClaimEnv) (p : ClaimParams) (s : Session) (w : Window),
      s.state = .active w → (∃ e, (s.claim X env p).2 = .error e) →
        s.store.snap.Same (s.claim X env p).1.store.snap := by
  intro h
  obtain ⟨herr, hleft⟩ := firstClaim_fullAfterAccount
  have hsame := h Token.sampleCrypto fullAfterAccount firstClaim openSession _ rfl ⟨_, herr⟩
  exact hleft (hsame.accounts "admin")

/-- The claim met the condition: the account was written as a new one. -/
theorem failed_claim_iff_firstClaim :
    ¬ ((∃ e, (openSession.claim Token.sampleCrypto fullAfterAccount firstClaim).2 = .error e) →
      openSession.store.snap.Same
        (openSession.claim Token.sampleCrypto fullAfterAccount firstClaim).1.store.snap) := by
  rw [failed_claim_iff Token.sampleCrypto fullAfterAccount firstClaim openSession _ rfl, not_not]
  exact ⟨isRight_self zeroCode, _, rfl, rfl, rfl, nofun⟩

end Vaiexia.Auth
