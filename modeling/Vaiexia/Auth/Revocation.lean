import Vaiexia.Auth.Concurrent

/-!
# Revocation is permanent

A key id is `Dead` when the published snapshot has no live record under it and no call that could
still add one.  Every step of every call keeps it dead, and so does a restart, since the disk has
the published snapshot or what a change makes of it; and a revocation that takes effect makes it
dead, because the record it found was there from the start or was added by the one call that adds
it, which has published then.
-/

namespace Vaiexia.Auth

open Vaiexia.Lib

namespace Concurrent

variable {ι : Type} {calls : ι → StoreCall} {base : IdentitySnapshot} {i : ι} {s s' : Sys ι}
  {k : String}

/-- No record under the key id is live. -/
def NoLive (k : String) (t : IdentitySnapshot) : Prop :=
  ∀ rec, t.lookupCapability k = some rec → rec.revoked = true

/-- No record under the key id is live, and nobody will add one. -/
structure Dead (calls : ι → StoreCall) (k : String) (s : Sys ι) : Prop where
  revoked : NoLive k s.cell.snap
  spent : ∀ i rec, calls i = .addCapability rec → rec.keyId = k → (s.cell.phase i).Spent

/-- Key ids are new: no two calls add the same one, and none that was there at the start. -/
structure FreshKeys (calls : ι → StoreCall) (base : IdentitySnapshot) : Prop where
  distinct : ∀ i j rec rec', calls i = .addCapability rec → calls j = .addCapability rec' →
    rec.keyId = rec'.keyId → i = j
  new : ∀ i rec, calls i = .addCapability rec → base.lookupCapability rec.keyId = none

/-- The key id is one of these. -/
structure FreshKey (calls : ι → StoreCall) (base : IdentitySnapshot) (k : String) : Prop where
  distinct : ∀ i j rec rec', calls i = .addCapability rec → calls j = .addCapability rec' →
    rec.keyId = k → rec'.keyId = k → i = j
  new : ∀ i rec, calls i = .addCapability rec → rec.keyId = k → base.lookupCapability k = none

theorem FreshKeys.freshKey (h : FreshKeys calls base) (k : String) : FreshKey calls base k where
  distinct := fun i j rec rec' hi hj hk hk' ↦ h.distinct i j rec rec' hi hj (hk.trans hk'.symm)
  new := fun i rec hi hk ↦ hk ▸ h.new i rec hi

/-- A closure that adds a record comes from the call that adds it. -/
theorem Submits.addCapability {rec : CapabilityRecord}
    (h : Submits calls i (.addCapability rec)) : calls i = .addCapability rec := by
  unfold Submits at h
  cases hcall : calls i <;> simp_all

theorem Submits.of_revokeCapability {change : Change} (h : Submits calls i change)
    (hcall : calls i = .revokeCapability k) : change = .revokeCapability k := by
  rw [Submits, hcall] at h
  exact h

/-- A closure that does not add under the key id leaves no live record there if there was none. -/
theorem NoLive.apply {change : Change} {t u : IdentitySnapshot} {n : Nat} (h : NoLive k t)
    (happly : change.apply t = .ok (u, n))
    (hno : ∀ rec, change = .addCapability rec → rec.keyId ≠ k) : NoLive k u := by
  intro rec' hk
  rcases Change.apply_capability happly hk with ⟨hadd, hkey⟩ | ⟨rec, hrec, hages⟩
  · exact absurd hkey (hno rec' hadd)
  · exact hages.revoked (h rec hrec)

/-- While the key id is dead, no call that has something to publish adds under it. -/
theorem Dead.keeps (h : Dead calls k s) {i : ι} {change : Change} (hsub : Submits calls i change)
    (hspent : ¬ (s.cell.phase i).Spent) (t u : IdentitySnapshot) (n : Nat)
    (happly : storeSpec.apply change t = .ok (u, n)) (ht : NoLive k t) : NoLive k u := by
  refine ht.apply happly ?_
  rintro rec rfl hkey
  exact hspent (h.spent i rec hsub.addCapability hkey)

/-- **A step keeps a key id dead.** -/
theorem Step.dead [DecidableEq ι] (hstep : Step calls i s s') (hinv : Inv calls base s)
    (h : Dead calls k s) : Dead calls k s' := by
  rcases hstep.cell hinv with heq | hcell
  · exact ⟨heq ▸ h.revoked, heq ▸ h.spent⟩
  · refine ⟨?_, fun j rec hcall hkey ↦ hcell.spent (h.spent j rec hcall hkey)⟩
    exact hcell.keeps (P := NoLive k) hinv.cell (fun c hsub hspent ↦ h.keeps hsub hspent) h.revoked

/-- **And so does a restart.** -/
theorem Restart.dead (hrestart : Restart s s') (hinv : Inv calls base s) (h : Dead calls k s) :
    Dead calls k s' := by
  cases hrestart with
  | mk hcell =>
      refine ⟨?_, fun j rec hcall hkey ↦ hcell.spent (h.spent j rec hcall hkey)⟩
      exact hcell.keeps (P := NoLive k) hinv.cell (fun j c hsub hspent ↦ h.keeps hsub hspent)
        h.revoked

/-- A record that can be found was there at the start, or the call that adds it has published. -/
theorem Inv.spent_of_lookup (hinv : Inv calls base s) (hfresh : FreshKey calls base k)
    {rec : CapabilityRecord} (hk : s.cell.snap.lookupCapability k = some rec) {j : ι}
    {added : CapabilityRecord} (hadd : calls j = .addCapability added) (hkey : added.keyId = k) :
    (s.cell.phase j).Spent := by
  have horigin := hinv.cell.replays.origin
    (P := fun t ↦ (t.lookupCapability k).isSome)
    (Q := fun c ↦ ∃ rec, c = .addCapability rec ∧ rec.keyId = k) ?_ (by simp [hk])
  · rcases horigin with hbase | ⟨e, he, added', hchange, hkey'⟩
    · rw [hfresh.new j added hadd hkey] at hbase
      cases hbase
    · have hsub := hinv.cell.submitted e he
      rw [hchange] at hsub
      have hcall := hsub.addCapability
      obtain rfl := hfresh.distinct _ _ _ _ hcall hadd hkey' hkey
      rcases hinv.cell.phase_of_mem he with h | h | h | h <;> rw [h] <;> trivial
  · intro c t u n happly hu
    obtain ⟨rec', hrec'⟩ := Option.isSome_iff_exists.mp hu
    rcases Change.apply_capability happly hrec' with ⟨hadd', hkey'⟩ | ⟨rec, hrec, -⟩
    · exact .inr ⟨rec', hadd', hkey'⟩
    · exact .inl (by simp [hrec])

/-- **A revocation kills** in the step in which it takes effect. -/
theorem Step.dead_of_took [DecidableEq ι] (hstep : Step calls i s s') (hinv : Inv calls base s)
    (hfresh : FreshKey calls base k) {j : ι} (hcall : calls j = .revokeCapability k)
    (hj : (s'.cell.phase j).Took) (hnot : ¬ (s.cell.phase j).Took) : Dead calls k s' := by
  rcases hstep.cell hinv with heq | hcell
  · rw [heq] at hj
    exact absurd hj hnot
  · obtain ⟨c, n, hsub, happly⟩ := hcell.took_cases hinv.cell hj hnot
    obtain rfl := hsub.of_revokeCapability hcall
    have hrevoke : s.cell.snap.revokeCapability k = .ok s'.cell.snap := by
      rcases hr : s.cell.snap.revokeCapability k with e | t
      · simp [storeSpec, Change.apply, hr, Except.map] at happly
      · simp only [storeSpec, Change.apply, hr, Except.map, Except.ok.injEq] at happly
        rw [(Prod.mk.inj happly).1]
    refine ⟨fun rec hk ↦ IdentitySnapshot.revoked_revokeCapability hrevoke hk, ?_⟩
    intro l rec hadd hkey
    obtain ⟨rec', hrec'⟩ : ∃ rec', s.cell.snap.lookupCapability k = some rec' := by
      unfold IdentitySnapshot.revokeCapability at hrevoke
      split at hrevoke
      · rename_i rec' hrec'
        exact ⟨rec', hrec'⟩
      · cases hrevoke
    exact hcell.spent (hinv.spent_of_lookup hfresh hrec' hadd hkey)

/-- After a revocation that took effect, its key id is dead. -/
theorem RunOrRestart.dead [DecidableEq ι] {file : Option Json}
    (hload : FileStore.load file = some base) (hfresh : FreshKey calls base k)
    (hrun : RunOrRestart calls (Sys.start file base) s) {j : ι}
    (hcall : calls j = .revokeCapability k) (hj : (s.cell.phase j).Took) :
    Inv calls base s ∧ Dead calls k s := by
  have hboth : Inv calls base s ∧ ((s.cell.phase j).Took → Dead calls k s) := by
    clear hj
    induction hrun with
    | refl => exact ⟨.start hload, fun h ↦ absurd h id⟩
    | tail _ hmove ih =>
        rename_i mid last _
        obtain ⟨hinv, hdead⟩ := ih
        rcases hmove with ⟨i, hstep⟩ | hrestart
        · refine ⟨hstep.inv hinv, fun hlast ↦ ?_⟩
          by_cases hmid : (mid.cell.phase j).Took
          · exact hstep.dead hinv (hdead hmid)
          · exact hstep.dead_of_took hinv hfresh hcall hlast hmid
        · refine ⟨hrestart.inv hinv, fun hlast ↦ ?_⟩
          have hmid : (mid.cell.phase j).Took := by
            cases hrestart with
            | mk hcell => exact hcell.took hlast
          exact hrestart.dead hinv (hdead hmid)
  exact ⟨hboth.1, hboth.2 hj⟩

/-- A dead key id stays dead. -/
theorem Dead.runOrRestart [DecidableEq ι] (hinv : Inv calls base s) (h : Dead calls k s)
    (hrun : RunOrRestart calls s s') : Dead calls k s' := by
  have hboth : Inv calls base s' ∧ Dead calls k s' := by
    induction hrun with
    | refl => exact ⟨hinv, h⟩
    | tail _ hmove ih =>
        rcases hmove with ⟨i, hstep⟩ | hrestart
        · exact ⟨hstep.inv ih.1, hstep.dead ih.1 ih.2⟩
        · exact ⟨hrestart.inv ih.1, hrestart.dead ih.1 ih.2⟩
  exact hboth.2

/-- **Revocation is permanent.**  Whatever calls run concurrently, wherever writing fails and
whenever the daemon is restarted: once `revoke_capability(k)` has returned `Ok`, no token with the
key id `k` authenticates, in any state that is reached later and at any time. -/
theorem revocation_permanent [DecidableEq ι] {file : Option Json}
    (hload : FileStore.load file = some base) (hfresh : FreshKeys calls base)
    (hrun : RunOrRestart calls (Sys.start file base) s) (hcall : calls i = .revokeCapability k)
    {change : Change} {n : Nat} (hok : s.cell.phase i = .ok change n)
    (hlater : RunOrRestart calls s s') (X : TokenCrypto) (core : ScopeSets) (clock : Clock)
    {token : String} {secret : Bytes} (hparse : Token.parse X token = some (k, secret)) :
    ∃ e, authenticate X core clock (some token) s'.view = (s'.view, .error e) := by
  obtain ⟨hinv, hdead⟩ := RunOrRestart.dead hload (hfresh.freshKey k) hrun hcall
    (by rw [hok]; trivial)
  have hdead' := hdead.runOrRestart hinv hlater
  rcases authenticate_cases X core clock (some token) s'.view with ⟨keyId, rec, hauth, -⟩ | h
  · obtain ⟨token', secret', htoken, hparse', hlookup, hlive, -⟩ := hauth
    obtain rfl := Option.some.inj htoken
    obtain ⟨rfl, -⟩ := Prod.mk.inj (Option.some.inj (hparse.symm.trans hparse'))
    rw [hdead'.revoked rec hlookup] at hlive
    cases hlive
  · obtain ⟨e, -, h⟩ := h
    exact ⟨e, h⟩

/-- A snapshot with one live capability. -/
def liveSnapshot : IdentitySnapshot :=
  IdentitySnapshot.default.addCapability { revokedRecord with revoked := false }

/-- The state in which the call that revokes it has returned. -/
def revokedByCall : Sys Unit where
  cell := (((DurableCell.State.start liveSnapshot (some liveSnapshot.toJson) : Cell Unit).set ()
    (.waiting (.revokeCapability Token.zeroToken.keyId))).done storeSpec ()
      (.revokeCapability Token.zeroToken.keyId) revokedSnapshot 0).set ()
        (.ok (.revokeCapability Token.zeroToken.keyId) 0)
  pending := ∅
  sweep := fun _ ↦ .before

theorem run_revokedByCall :
    Run (fun _ ↦ .revokeCapability Token.zeroToken.keyId)
      (Sys.start (some liveSnapshot.toJson) liveSnapshot) revokedByCall := by
  have hsubmit : Step (fun _ ↦ .revokeCapability Token.zeroToken.keyId) ()
      (Sys.start (some liveSnapshot.toJson) liveSnapshot) _ := .submit rfl rfl
  refine ((Relation.ReflTransGen.single ⟨(), hsubmit⟩).trans (Run.of_mutate (i := ()) ?_)).tail
    ⟨(), .return (DurableCell.State.set_phase_self () _ _) ?_⟩
  · exact DurableCell.Mutate.alone (DurableCell.State.set_phase_self () _ _) rfl rfl
  · intro now grace h
    cases h

/-- One call revokes it, the daemon is restarted, and the token is refused. -/
theorem revocation_permanent_restarted :
    ∃ s', Restart revokedByCall s' ∧
      ∃ e, authenticate Token.sampleCrypto .lists ⟨1700000000, 1700000000, 1700000000⟩
        (some Token.zeroToken.capability) s'.view = (s'.view, .error e) := by
  have hrestart : Restart revokedByCall _ :=
    .mk (.mk (s := revokedSnapshot) (FileStore.load_toJson revokedSnapshot))
  have hrun : RunOrRestart (fun _ ↦ .revokeCapability Token.zeroToken.keyId)
      (Sys.start (some liveSnapshot.toJson) liveSnapshot) revokedByCall :=
    Relation.ReflTransGen.mono (fun _ _ h ↦ .inl h) _ _ run_revokedByCall
  have hfresh : FreshKeys (fun _ : Unit ↦ .revokeCapability Token.zeroToken.keyId)
      liveSnapshot := by
    constructor
    · rintro i j rec rec' ⟨⟩
    · rintro i rec ⟨⟩
  refine ⟨_, hrestart, ?_⟩
  exact revocation_permanent (FileStore.load_toJson liveSnapshot) hfresh hrun rfl
    (DurableCell.State.set_phase_self () _ _) (.single (.inr hrestart)) Token.sampleCrypto .lists _
    Token.parse_zeroToken

end Concurrent

end Vaiexia.Auth
