import Vaiexia.Auth.Concurrent

/-!
# Maintenance of the identity store

The persister flushes the times of last use and prunes dead capabilities, next to the calls of
requests.  A prune takes nothing from anybody who could authenticate.  The other two promises of
the store fail at their edges: a flush whose write fails has emptied the buffer already, and a
flush or a prune that comes to the lock with work that is gone by then writes the file and reports
that it did nothing.
-/

namespace Vaiexia.Auth

open Vaiexia.Lib

/-! ## Pruning and authentication -/

theorem le_saturatingAdd (a b : UInt64) : a ≤ saturatingAdd a b := by
  have ha := a.toNat_lt
  have hlt : min (a.toNat + b.toNat) (2 ^ 64 - 1) < UInt64.size :=
    lt_of_le_of_lt (Nat.min_le_right _ _) (by decide)
  rw [UInt64.le_iff_toNat_le, saturatingAdd, UInt64.toNat_ofNat_of_lt' hlt]
  exact Nat.le_min.mpr ⟨Nat.le_add_right _ _, by omega⟩

/-- What authenticates later is not removed now: it is not revoked and has not expired. -/
theorem Authentic.not_removable {X : TokenCrypto} {now later grace : UInt64} {cap : Option String}
    {snap : IdentitySnapshot} {keyId : String} {rec : CapabilityRecord}
    (h : Authentic X later cap snap keyId rec) (hlater : now ≤ later) :
    removable now grace rec = false := by
  obtain ⟨token, secret, -, -, -, hrevoked, -, hexpiry⟩ := h
  unfold removable
  rw [hrevoked, Bool.false_or]
  cases hexp : rec.expiresAt with
  | none => rfl
  | some e =>
      have hlate : later < e := hexpiry e hexp
      have hkept : now < saturatingAdd e grace :=
        UInt64.lt_of_le_of_lt hlater (UInt64.lt_of_lt_of_le hlate (le_saturatingAdd e grace))
      simpa using hkept

/-- A token is authentic in the pruned snapshot if and only if it is in the snapshot. -/
theorem authentic_prune_iff {X : TokenCrypto} {now later grace : UInt64} {cap : Option String}
    {snap : IdentitySnapshot} {keyId : String} {rec : CapabilityRecord} (hlater : now ≤ later) :
    Authentic X later cap (snap.prune now grace).1 keyId rec ↔
      Authentic X later cap snap keyId rec := by
  constructor
  · rintro ⟨token, secret, hcap, hparse, hlookup, hlive⟩
    exact ⟨token, secret, hcap, hparse, (HashMap.mem_lookup_retain.mp hlookup).1, hlive⟩
  · intro h
    have hkeep : removable now grace rec = false := h.not_removable hlater
    obtain ⟨token, secret, hcap, hparse, hlookup, hlive⟩ := h
    refine ⟨token, secret, hcap, hparse, HashMap.mem_lookup_retain.mpr ⟨hlookup, ?_⟩, hlive⟩
    rw [hkeep]
    rfl

/-- A prune leaves the snapshot, or publishes the pruned one. -/
theorem FileStore.snap_pruneCapabilities (fault : Option StoreError) (now grace : UInt64)
    (st : FileStore) :
    (st.pruneCapabilities fault now grace).1.snap = st.snap ∨
      (st.pruneCapabilities fault now grace).1.snap = (st.snap.prune now grace).1 := by
  rcases StoreCall.run_moves fault st (.pruneCapabilities now grace) with
    ⟨-, hsnap⟩ | ⟨next, n, happly, -, hsnap⟩
  · exact .inl hsnap
  · obtain ⟨rfl, -⟩ := Prod.mk.inj (Except.ok.inj happly)
    exact .inr hsnap

/-- **Pruning is invisible to authentication.**  Whoever presents a token from then on gets the
answer of the store before the prune; accounts stay, and so do the records that are left. -/
theorem prune_invisible (X : TokenCrypto) (core : ScopeSets) (fault : Option StoreError)
    (now grace : UInt64) (st : FileStore) :
    (∀ (clock : Clock) (cap : Option String) (subject : Subject core), now ≤ clock.expiry →
      ((authenticate X core clock cap (st.pruneCapabilities fault now grace).1).2 = .ok subject ↔
        (authenticate X core clock cap st).2 = .ok subject)) ∧
    (st.pruneCapabilities fault now grace).1.snap.accounts = st.snap.accounts ∧
    ∀ k rec, (st.pruneCapabilities fault now grace).1.snap.lookupCapability k = some rec →
      st.snap.lookupCapability k = some rec := by
  rcases st.snap_pruneCapabilities fault now grace with hsnap | hsnap
  · refine ⟨fun clock cap subject _ ↦ ?_, by rw [hsnap], fun k rec hk ↦ hsnap ▸ hk⟩
    rw [authenticate_ok_iff, authenticate_ok_iff, hsnap]
  · refine ⟨fun clock cap subject hlater ↦ ?_, by rw [hsnap]; rfl, fun k rec hk ↦ ?_⟩
    · rw [authenticate_ok_iff, authenticate_ok_iff, hsnap]
      simp only [authentic_prune_iff hlater]
    · rw [hsnap] at hk
      exact (HashMap.mem_lookup_retain.mp hk).1

/-- A live capability. -/
def liveRecord : CapabilityRecord := { Concurrent.revokedRecord with revoked := false }

/-- A store with that capability and a revoked one. -/
def mixedStore : FileStore where
  file := none
  snap := (IdentitySnapshot.default.addCapability liveRecord).addCapability
    { Concurrent.revokedRecord with keyId := "7777777777777777" }
  pendingTouch := ∅

/-- A token that is accepted after the prune of a revoked one, as it was before. -/
theorem prune_invisible_zeroToken :
    (authenticate Token.sampleCrypto .lists ⟨1700000600, 1700000600, 1700000600⟩
        (some Token.zeroToken.capability)
        (FileStore.pruneCapabilities none 1700000000 86400 mixedStore).1).2
      = .ok (liveRecord.subject .lists) ↔
    (authenticate Token.sampleCrypto .lists ⟨1700000600, 1700000600, 1700000600⟩
        (some Token.zeroToken.capability) mixedStore).2
      = .ok (liveRecord.subject .lists) :=
  (prune_invisible Token.sampleCrypto .lists none 1700000000 86400 mixedStore).1 _ _ _ (by decide)

/-! ## Whether there is work -/

/-- Whether a flush or a prune finds something to change. -/
def Change.hasWork : Change → IdentitySnapshot → Bool
  | .applyTouches pending, s => pending.entries.any fun e ↦ (s.lookupCapability e.1).isSome
  | .prune now grace, s => s.capabilities.values.any (removable now grace)
  | _, _ => true

theorem IdentitySnapshot.applyTouches_eq_zero_iff
    (pending : List (Sigma fun _ : String ↦ UInt64)) (s : IdentitySnapshot) :
    (s.applyTouches pending).2 = 0 ↔
      (pending.any fun e ↦ (s.lookupCapability e.1).isSome) = false := by
  induction pending with
  | nil => exact iff_of_true rfl rfl
  | cons e pending ih =>
      obtain ⟨key, ts⟩ := e
      rw [applyTouches, List.any_cons]
      cases hkey : s.capabilities.lookup key with
      | some rec =>
          have hthere : s.lookupCapability key = some rec := hkey
          simp [hthere]
      | none =>
          have hgone : s.lookupCapability key = none := hkey
          rw [hgone, Option.isSome_none, Bool.false_or]
          exact ih

theorem IdentitySnapshot.prune_eq_zero_iff (now grace : UInt64) (s : IdentitySnapshot) :
    (s.prune now grace).2 = 0 ↔ s.capabilities.values.any (removable now grace) = false := by
  constructor
  · intro hzero
    rw [List.any_eq_false]
    intro rec hrec hremovable
    obtain ⟨e, he, rfl⟩ := List.mem_map.mp hrec
    have hshorter : (s.capabilities.retain fun _ rec ↦ !removable now grace rec).len
        < s.capabilities.len :=
      List.length_filter_lt_length_iff_exists.mpr ⟨e, he, by simpa using hremovable⟩
    simp only [prune] at hzero
    omega
  · intro hnone
    rw [prune_eq_self hnone]

/-- The call flushes or prunes. -/
def StoreCall.Maintains : StoreCall → Prop
  | .flushLastUsed | .pruneCapabilities .. => True
  | _ => False

/-- **A flush or a prune counts nothing** if and only if there is nothing for it to do. -/
theorem Change.eq_zero_iff {ι : Type} {calls : ι → StoreCall} {i : ι} {change : Change}
    (hcall : (calls i).Maintains) (hsubmits : Concurrent.Submits calls i change)
    {s s' : IdentitySnapshot} {n : Nat} (happly : change.apply s = .ok (s', n)) :
    n = 0 ↔ change.hasWork s = false := by
  unfold Concurrent.Submits at hsubmits
  cases hi : calls i with
  | flushLastUsed =>
      rw [hi] at hsubmits
      obtain ⟨pending, rfl, -⟩ := hsubmits
      have hcount : (s.applyTouches pending.entries).2 = n :=
        congrArg Prod.snd (Except.ok.inj happly)
      rw [← hcount]
      exact IdentitySnapshot.applyTouches_eq_zero_iff pending.entries s
  | pruneCapabilities now grace =>
      rw [hi] at hsubmits
      obtain rfl := hsubmits
      have hcount : (s.prune now grace).2 = n := congrArg Prod.snd (Except.ok.inj happly)
      rw [← hcount]
      exact IdentitySnapshot.prune_eq_zero_iff now grace s
  | addCapability | revokeCapability | touchLastUsed | addAccount =>
      rw [hi] at hcall
      exact hcall.elim

/-! ## What a flush sets -/

namespace IdentitySnapshot

theorem lookupCapability_applyTouches_of_notMem {k : String}
    {pending : List (Sigma fun _ : String ↦ UInt64)} (hk : ∀ e ∈ pending, e.1 ≠ k)
    (s : IdentitySnapshot) :
    (s.applyTouches pending).1.lookupCapability k = s.lookupCapability k := by
  induction pending generalizing s with
  | nil => rfl
  | cons e pending ih =>
      have hne : k ≠ e.1 := (hk e List.mem_cons_self).symm
      have hrest := ih fun e' he' ↦ hk e' (List.mem_cons_of_mem _ he')
      rw [applyTouches]
      split
      · rw [hrest]
        exact AList.lookup_insert_ne hne
      · exact hrest s

/-- A touch sets the time of last use, if the record is there. -/
theorem lastUsed_applyTouches {k : String} {t : UInt64} {rec : CapabilityRecord}
    (pending : HashMap String UInt64) (hk : pending.lookup k = some t) (s : IdentitySnapshot)
    (hrec : (s.applyTouches pending.entries).1.lookupCapability k = some rec) :
    rec.lastUsed = some t := by
  have hmem : (⟨k, t⟩ : Sigma fun _ : String ↦ UInt64) ∈ pending.entries :=
    AList.mem_lookup_iff.mp hk
  have hnodup := pending.nodupKeys
  revert hmem hnodup hrec
  generalize pending.entries = es
  intro hrec hmem hnodup
  induction es generalizing s with
  | nil => cases hmem
  | cons e es ih =>
      obtain ⟨key, ts⟩ := e
      have hfresh : ∀ e ∈ es, e.1 ≠ key := by
        rintro e he rfl
        have hkey := List.mem_keys_of_mem he
        exact (List.nodupKeys_cons.mp hnodup).1 hkey
      rw [applyTouches] at hrec
      rcases List.mem_cons.mp hmem with heq | hmem
      · cases heq
        split at hrec
        · rw [lookupCapability_applyTouches_of_notMem hfresh, lookupCapability,
            AList.lookup_insert] at hrec
          rw [← Option.some.inj hrec]
        · rename_i hnone
          rw [lookupCapability_applyTouches_of_notMem hfresh, lookupCapability, hnone] at hrec
          cases hrec
      · split at hrec
        · exact ih _ hrec hmem (List.nodupKeys_cons.mp hnodup).2
        · exact ih s hrec hmem (List.nodupKeys_cons.mp hnodup).2

end IdentitySnapshot

namespace Concurrent

/-! ## Calls that write -/

section Traces

variable {ι : Type} [DecidableEq ι] {calls : ι → StoreCall} {base : IdentitySnapshot}
  {start s s' : Sys ι} {past : List (Sys ι)} {i : ι}

/-- A run with the states that it has gone through before its last one. -/
inductive Trace (calls : ι → StoreCall) (start : Sys ι) : List (Sys ι) → Sys ι → Prop
  | start : Trace calls start [] start
  | step {past : List (Sys ι)} {s s' : Sys ι} {i : ι} (h : Trace calls start past s)
      (hstep : Step calls i s s') : Trace calls start (past ++ [s]) s'

/-- The call has rewritten the identity file. -/
def Rewrote (i : ι) (past : List (Sys ι)) : Prop := DurableCell.Wrote i (past.map Sys.cell)

/-- Whenever the call had the lock, and the snapshot before it, there was work in it. -/
def FoundWork (i : ι) (past : List (Sys ι)) : Prop :=
  ∀ m ∈ past, ∀ change, m.cell.phase i = .locked change → change.hasWork m.cell.snap = true

theorem Trace.inv (h : Trace calls start past s) (hstart : Inv calls base start) :
    Inv calls base s := by
  induction h with
  | start => exact hstart
  | step _ hstep ih => exact hstep.inv ih

/-- What lies behind a call of the run. -/
theorem Trace.pastInv (h : Trace calls start past s) (hstart : Inv calls base start)
    (hidle : start.cell.phase i = .idle) :
    DurableCell.PastInv storeSpec i (past.map Sys.cell) s.cell (s.cell.phase i) := by
  induction h with
  | start =>
      rw [hidle]
      exact ⟨fun h ↦ by simp [DurableCell.Looked] at h, fun h ↦ by simp [DurableCell.Wrote] at h⟩
  | step hpast hstep ih =>
      rw [List.map_append]
      rcases hstep.cell (hpast.inv hstart) with heq | hcell
      · rw [heq]
        exact ih.stay _ rfl fun _ _ ↦ rfl
      · exact ih.step (hpast.inv hstart).cell hcell

/-- **When maintenance that does nothing writes nothing.**  In every run, a flush or a prune that
has returned keeps this promise if and only if there was work left for it whenever it had the
lock. -/
theorem rewrote_iff {file : Option Json} (hload : FileStore.load file = some base)
    (htrace : Trace calls (Sys.start file base) past s) (hcall : (calls i).Maintains)
    {change : Change} {n : Nat} (hreturned : s.cell.phase i = .ok change n) :
    (n = 0 → ¬ Rewrote i past) ↔ FoundWork i past := by
  have hinv : Inv calls base s := htrace.inv (.start hload)
  have hbehind := htrace.pastInv (.start hload) (i := i) rfl
  have hsubmits : Submits calls i change := by
    have hi := hinv.cell.calls i
    rw [hreturned] at hi
    exact hinv.cell.submitted _ hi.2
  rw [hreturned] at hbehind
  have hzero : DurableCell.Applied storeSpec i change n (past.map Sys.cell) →
      ∀ m ∈ past, ∀ c, m.cell.phase i = .locked c →
        c = change ∧ (n = 0 ↔ change.hasWork m.cell.snap = false) := by
    intro happlied m hm c hc
    obtain ⟨rfl, next, happly⟩ := happlied.apply m.cell (List.mem_map_of_mem hm) c hc
    exact ⟨rfl, Change.eq_zero_iff hcall hsubmits happly⟩
  rcases hbehind with ⟨hlooked, hwrote⟩ | ⟨happlied, hwrote⟩
  · refine iff_of_true (fun _ ↦ hwrote) fun m hm c hc ↦ ?_
    exact absurd ⟨m.cell, List.mem_map_of_mem hm, c, hc⟩ hlooked
  · constructor
    · intro hkeeps m hm c hc
      obtain ⟨rfl, hiff⟩ := hzero happlied m hm c hc
      rw [← Bool.not_eq_false, ← hiff]
      exact fun hn ↦ hkeeps hn hwrote
    · rintro hfound hn -
      obtain ⟨cell, hcell, c, hc⟩ := happlied.looked
      obtain ⟨m, hm, rfl⟩ := List.mem_map.mp hcell
      obtain ⟨rfl, hiff⟩ := hzero happlied m hm c hc
      have hwork := hfound m hm c hc
      rw [hiff.mp hn] at hwork
      cases hwork

/-- A call that waits while the lock is free can go through, and then it has written. -/
theorem Trace.alone (h : Trace calls start past s) {change : Change}
    (hi : s.cell.phase i = .waiting change) (hfree : s.cell.lock = none) {next : IdentitySnapshot}
    {n : Nat} (happly : change.apply s.cell.snap = .ok (next, n)) :
    ∃ past' s', Trace calls start past' s' ∧ s'.cell.phase i = .released change n ∧
      Rewrote i past' := by
  have hlocked := h.step (.mutate (.acquire hi hfree))
  have hcomputed := hlocked.step
    (.mutate (.compute (DurableCell.State.set_phase_self i _ _) happly))
  have hpersisted := hcomputed.step (.mutate (.persist (DurableCell.State.set_phase_self i _ _)))
  have hpublished := hpersisted.step (.mutate (.publish (DurableCell.State.set_phase_self i _ _)))
  have hreleased := hpublished.step (.mutate (.release (DurableCell.State.set_phase_self i _ _)))
  refine ⟨_, _, hreleased, DurableCell.State.set_phase_self i _ _, ?_⟩
  refine ⟨_, List.mem_map_of_mem (List.mem_append_left _ List.mem_concat_self), change, next, n, ?_⟩
  exact DurableCell.State.set_phase_self i _ _

end Traces

/-! ### A touch of a key that is gone -/

/-- A touch of a capability that the store does not have, and a flush. -/
def strayTouch : Bool → StoreCall
  | true => .touchLastUsed Token.zeroToken.keyId 1700000000
  | false => .flushLastUsed

/-- The flush writes the file and counts nothing. -/
theorem exists_trace_strayTouch :
    ∃ past s change, Trace strayTouch (Sys.start none .default) past s ∧
      s.cell.phase false = .ok change 0 ∧ Rewrote false past := by
  have htouched : Trace strayTouch (Sys.start none .default) _ _ :=
    Trace.start.step (.touch (i := true) rfl rfl nofun)
  have htaken := htouched.step (.take (i := false) rfl rfl nofun rfl)
  obtain ⟨past, s, htrace, hreleased, hwrote⟩ :=
    htaken.alone (DurableCell.State.set_phase_self false _ _) rfl rfl
  refine ⟨_, _, _, htrace.step (.return hreleased nofun),
    DurableCell.State.set_phase_self false _ _, ?_⟩
  rw [Rewrote, List.map_append]
  exact DurableCell.wrote_concat.mpr (.inl hwrote)

/-- **Maintenance that does nothing may write.** -/
theorem not_forall_not_rewrote :
    ¬ ∀ (calls : Bool → StoreCall) (file : Option Json) (base : IdentitySnapshot)
      (past : List (Sys Bool)) (s : Sys Bool) (i : Bool) (change : Change),
      FileStore.load file = some base → Trace calls (Sys.start file base) past s →
      (calls i).Maintains → s.cell.phase i = .ok change 0 → ¬ Rewrote i past := by
  intro h
  obtain ⟨past, s, change, htrace, hreturned, hwrote⟩ := exists_trace_strayTouch
  exact h _ _ _ _ _ false change rfl htrace trivial hreturned hwrote

/-- The flush had no work when it had the lock. -/
theorem rewrote_iff_strayTouch :
    ∃ past s, Trace strayTouch (Sys.start none .default) past s ∧ ¬ FoundWork false past := by
  obtain ⟨past, s, change, htrace, hreturned, hwrote⟩ := exists_trace_strayTouch
  refine ⟨past, s, htrace, fun hfound ↦ ?_⟩
  exact (rewrote_iff (i := false) rfl htrace trivial hreturned).mpr hfound rfl hwrote

/-! ## Touches that a failed flush took -/

section Touching

variable {ι : Type} [DecidableEq ι] {calls : ι → StoreCall} {base : IdentitySnapshot} {i j : ι}
  {start s s' s₀ s₁ : Sys ι} {touches : List (String × UInt64)}

/-- The touch that a step of the call makes. -/
def touchOf (calls : ι → StoreCall) (j : ι) (s : Sys ι) : List (String × UInt64) :=
  match calls j, s.cell.phase j with
  | .touchLastUsed k t, .idle => [(k, t)]
  | _, _ => []

/-- A run in which no other call than the one flushes or prunes, with the touches of others in their
order. -/
inductive Touching (calls : ι → StoreCall) (i : ι) (start : Sys ι) :
    List (String × UInt64) → Sys ι → Prop
  | start : Touching calls i start [] start
  | step {touches : List (String × UInt64)} {s s' : Sys ι} {j : ι}
      (h : Touching calls i start touches s) (hj : j = i ∨ ¬ (calls j).Maintains)
      (hstep : Step calls j s s') : Touching calls i start (touches ++ touchOf calls j s) s'

/-- Every key of the buffer is in the later one, with a time at least as recent. -/
def StaysPending (before after : HashMap String UInt64) : Prop :=
  ∀ k t, before.lookup k = some t → ∃ t', after.lookup k = some t' ∧ t ≤ t'

/-- When the next flush publishes, it has set the time of last use of every key of the buffer that
is still in the store. -/
def NextFlushSets (calls : ι → StoreCall) (i : ι) (before : HashMap String UInt64)
    (s : Sys ι) : Prop :=
  ∀ (touches : List (String × UInt64)) (s₁ s₂ mid s₃ : Sys ι) (j : ι),
    Touching calls i s touches s₁ → calls j = .flushLastUsed → s₁.cell.phase j = .idle →
    Step calls j s₁ s₂ → Run calls s₂ mid → Step calls j mid s₃ →
    ¬ (mid.cell.phase j).Took → (s₃.cell.phase j).Took →
    ∀ k t rec, before.lookup k = some t → s₃.cell.snap.lookupCapability k = some rec →
      ∃ t', s₁.pending.lookup k = some t' ∧ rec.lastUsed = some t'

/-- Only prunes sweep. -/
def PrunesSweep (calls : ι → StoreCall) (s : Sys ι) : Prop :=
  ∀ j todo, s.sweep j = .sweeping todo → ∃ now grace, calls j = .pruneCapabilities now grace

theorem Step.prunesSweep (hstep : Step calls i s s') (h : PrunesSweep calls s) :
    PrunesSweep calls s' := by
  intro j todo hj
  rcases eq_or_ne j i with rfl | hne
  · cases hstep with
    | @sweepStart now grace change n todo' hi hcall hbefore hfree htodo => exact ⟨now, grace, hcall⟩
    | sweepKey hsweep => exact h j _ hsweep
    | scanNothing | sweepEnd =>
        dsimp only at hj
        rw [Function.update_self] at hj
        cases hj
    | submit | touch | takeNothing | take | scan | mutate | «return» | returnFailed =>
        exact h j todo hj
  · refine h j todo ?_
    cases hstep with
    | sweepStart | sweepKey | sweepEnd | scanNothing =>
        rw [← hj]
        exact (Function.update_of_ne hne _ _).symm
    | submit | touch | takeNothing | take | scan | mutate | «return» | returnFailed => exact hj

theorem Run.prunesSweep (hrun : Run calls s s') (h : PrunesSweep calls s) :
    PrunesSweep calls s' := by
  induction hrun with
  | refl => exact h
  | tail _ hstep ih => exact hstep.choose_spec.prunesSweep ih

omit [DecidableEq ι] in
/-- A call touches when it is made. -/
theorem touchOf_eq_nil (h : s.cell.phase j ≠ .idle ∨ ∀ k t, calls j ≠ .touchLastUsed k t) :
    touchOf calls j s = [] := by
  unfold touchOf
  split
  · rename_i k t hcall hidle
    rcases h with hne | hno
    · exact absurd hidle hne
    · exact absurd hcall (hno k t)
  · rfl

/-- What a step does to the buffer, unless its call empties it or drops something from it. -/
theorem Step.pending_eq (hstep : Step calls j s s') (hsweep : PrunesSweep calls s)
    (hj : ¬ (calls j).Maintains ∨ calls j = .flushLastUsed ∧ s.cell.phase j ≠ .idle) :
    s'.pending = HashMap.insertAll (touchOf calls j s) s.pending := by
  have hmade : s.cell.phase j ≠ .idle →
      s.pending = HashMap.insertAll (touchOf calls j s) s.pending := by
    intro hne
    rw [touchOf_eq_nil (.inl hne)]
    rfl
  cases hstep with
  | submit hi hcall =>
      rw [touchOf_eq_nil (.inr fun k t htouch ↦ by rw [htouch] at hcall; cases hcall)]
      rfl
  | touch hi hcall hfree =>
      rw [touchOf, hcall, hi]
      rfl
  | takeNothing hi hcall | take hi hcall =>
      rcases hj with hother | ⟨-, hne⟩
      · rw [hcall] at hother
        exact absurd trivial hother
      · exact absurd hi hne
  | scanNothing hi hcall | scan hi hcall =>
      rcases hj with hother | ⟨hflush, -⟩
      · rw [hcall] at hother
        exact absurd trivial hother
      · rw [hcall] at hflush
        cases hflush
  | mutate hmutate =>
      refine hmade ?_
      cases hmutate with
      | acquire hi | compute hi | refuse hi | persist hi | persistFails hi | publish hi
      | release hi | releaseFailed hi =>
          rw [hi]
          nofun
  | sweepStart hi | «return» hi | returnFailed hi =>
      refine hmade ?_
      rw [hi]
      nofun
  | sweepKey hswept | sweepEnd hswept =>
      obtain ⟨now, grace, hcall⟩ := hsweep j _ hswept
      rcases hj with hother | ⟨hflush, -⟩
      · rw [hcall] at hother
        exact absurd trivial hother
      · rw [hcall] at hflush
        cases hflush

/-- **What such a run leaves in the buffer.** -/
theorem Touching.pending (h : Touching calls i start touches s) (hstart : Inv calls base start)
    (hsweep : PrunesSweep calls start) (hcall : calls i = .flushLastUsed)
    (hmade : start.cell.phase i ≠ .idle) :
    s.pending = HashMap.insertAll touches start.pending ∧ Inv calls base s ∧
      PrunesSweep calls s ∧ s.cell.phase i ≠ .idle := by
  induction h with
  | start => exact ⟨rfl, hstart, hsweep, hmade⟩
  | @step touches s s' j h hj hstep ih =>
      obtain ⟨hpending, hinv, hprunes, hnot⟩ := ih
      refine ⟨?_, hstep.inv hinv, hstep.prunesSweep hprunes, ?_⟩
      · rw [HashMap.insertAll_append, ← hpending]
        refine hstep.pending_eq hprunes ?_
        rcases hj with rfl | hother
        · exact .inr ⟨hcall, hnot⟩
        · exact .inl hother
      · rcases hstep.cell hinv with heq | hcell
        · rw [heq]
          exact hnot
        · exact hcell.not_idle hnot

/-- A call that was made submits nothing else. -/
theorem Run.change_eq (hrun : Run calls s s') (hinv : Inv calls base s)
    (hmade : s.cell.phase j ≠ .idle) :
    Inv calls base s' ∧ s'.cell.phase j ≠ .idle ∧ ∀ change,
      (s'.cell.phase j).change? = some change → (s.cell.phase j).change? = some change := by
  induction hrun with
  | refl => exact ⟨hinv, hmade, fun _ h ↦ h⟩
  | tail _ hmove ih =>
      obtain ⟨hmid, hnot, hsame⟩ := ih
      obtain ⟨i, hstep⟩ := hmove
      refine ⟨hstep.inv hmid, ?_⟩
      rcases hstep.cell hmid with heq | hcell
      · rw [heq]
        exact ⟨hnot, hsame⟩
      · exact ⟨hcell.not_idle hnot, fun change h ↦ hsame change (hcell.change_eq hnot h)⟩

/-- A flush that is made takes the buffer, and leaves it empty. -/
theorem Step.flush_eq (hstep : Step calls j s s') (hcall : calls j = .flushLastUsed)
    (hidle : s.cell.phase j = .idle) (hsweep : PrunesSweep calls s) :
    s'.pending = ∅ ∧ s'.cell.phase j ≠ .idle ∧ (s.pending = ∅ ∨
      (s'.cell.phase j).change? = some (.applyTouches s.pending)) := by
  cases hstep with
  | takeNothing hi hflush hfree hempty =>
      refine ⟨rfl, ?_, .inl (HashMap.isEmpty_iff.mp hempty)⟩
      dsimp only
      rw [DurableCell.State.skip_phase_self]
      nofun
  | take hi hflush hfree hempty =>
      dsimp only
      rw [DurableCell.State.set_phase_self]
      exact ⟨rfl, nofun, .inr rfl⟩
  | submit hi hdirect =>
      rw [hcall] at hdirect
      cases hdirect
  | touch hi hother | scanNothing hi hother | scan hi hother | sweepStart hi hother =>
      rw [hcall] at hother
      cases hother
  | mutate hmutate =>
      cases hmutate with
      | acquire hi | compute hi | refuse hi | persist hi | persistFails hi | publish hi
      | release hi | releaseFailed hi =>
          rw [hidle] at hi
          cases hi
  | «return» hi | returnFailed hi =>
      rw [hidle] at hi
      cases hi
  | sweepKey hswept | sweepEnd hswept =>
      obtain ⟨now, grace, hprune⟩ := hsweep j _ hswept
      rw [hcall] at hprune
      cases hprune

/-- **When a failed flush loses no touch.**  In every run, with touches at any time between, a flush
that has failed keeps every key that it took, for the next flush to set, if and only if each of
them was touched again meanwhile, the last time with a time at least as recent. -/
theorem failed_flush_iff {file : Option Json} (hload : FileStore.load file = some base)
    (hrun : Run calls (Sys.start file base) s₀) (hcall : calls i = .flushLastUsed)
    (hidle : s₀.cell.phase i = .idle) (hbegin : Step calls i s₀ s₁)
    (htouching : Touching calls i s₁ touches s) :
    (∃ e, s.cell.phase i = .err e) →
      ((StaysPending s₀.pending s.pending ∧ NextFlushSets calls i s₀.pending s) ↔
        ∀ k t, s₀.pending.lookup k = some t →
          ∃ t', touches.reverse.lookup k = some t' ∧ t ≤ t') := by
  intro _
  have hinv₀ := (Run.not_lost hload hrun).1
  have hsweep₀ : PrunesSweep calls s₀ := hrun.prunesSweep fun _ _ h ↦ nomatch h
  obtain ⟨hempty, hmade, -⟩ := hbegin.flush_eq hcall hidle hsweep₀
  obtain ⟨hpending, hinv, hsweep, hmade⟩ := htouching.pending (hbegin.inv hinv₀)
    (hbegin.prunesSweep hsweep₀) hcall hmade
  have hlookup : ∀ k, s.pending.lookup k = touches.reverse.lookup k := by
    intro k
    rw [hpending, hempty, HashMap.lookup_insertAll]
    exact Option.or_none
  constructor
  · rintro ⟨hkept, -⟩ k t hk
    rw [← hlookup]
    exact hkept k t hk
  · intro hagain
    have hkept : StaysPending s₀.pending s.pending := by
      intro k t hk
      rw [hlookup]
      exact hagain k t hk
    refine ⟨hkept, ?_⟩
    intro touches' s₁' s₂ mid s₃ j htouching' hcall' hidle' hbegin' hrest hpublish hnot htook k t
      rec hk hrec
    obtain ⟨hpending', hinv', hsweep', -⟩ := htouching'.pending hinv hsweep hcall hmade
    obtain ⟨t', hk', -⟩ := hkept k t hk
    -- touches leave the key in the buffer
    have hstill : ∃ t'', s₁'.pending.lookup k = some t'' := by
      rw [hpending', HashMap.lookup_insertAll, hk']
      cases touches'.reverse.lookup k with
      | none => exact ⟨t', rfl⟩
      | some t'' => exact ⟨t'', rfl⟩
    obtain ⟨t'', hk''⟩ := hstill
    obtain ⟨-, hmade', hchange⟩ := hbegin'.flush_eq hcall' hidle' hsweep'
    have hchange' : (s₂.cell.phase j).change? = some (.applyTouches s₁'.pending) := by
      rcases hchange with hnone | hchange
      · rw [hnone] at hk''
        cases hk''
      · exact hchange
    obtain ⟨hmid, hmadeMid, hsame⟩ := hrest.change_eq (hbegin'.inv hinv') hmade'
    refine ⟨t'', hk'', ?_⟩
    rcases hpublish.cell hmid with heq | hcell
    · rw [heq] at htook
      exact absurd htook hnot
    · obtain ⟨c, r, hc, happly⟩ := hcell.took_change hmid.cell htook hnot hmadeMid
      obtain rfl := Option.some.inj ((hsame c hc).symm.trans hchange')
      have hsnap : (mid.cell.snap.applyTouches s₁'.pending.entries).1 = s₃.cell.snap :=
        congrArg Prod.fst (Except.ok.inj happly)
      rw [← hsnap] at hrec
      exact IdentitySnapshot.lastUsed_applyTouches s₁'.pending hk'' mid.cell.snap hrec

/-- What the flush does to the cell is part of such a run. -/
theorem Touching.own (h : Touching calls i start touches s) (hcall : calls i = .flushLastUsed)
    {cell : Cell ι} (hrun : Relation.ReflTransGen (DurableCell.Mutate storeSpec i) s.cell cell) :
    Touching calls i start touches { s with cell } := by
  induction hrun with
  | refl => exact h
  | tail _ hstep ih =>
      have hnext := ih.step (.inl rfl) (.mutate hstep)
      rwa [touchOf_eq_nil (.inr fun k t htouch ↦ by rw [hcall] at htouch; cases htouch),
        List.append_nil] at hnext

end Touching

/-! ### A flush that cannot write -/

/-- A snapshot with the live capability only. -/
def usedSnapshot : IdentitySnapshot := IdentitySnapshot.default.addCapability liveRecord

/-- The state in which it was touched and not flushed yet. -/
def touchedSys : Sys Bool where
  cell := (Sys.start (some usedSnapshot.toJson) usedSnapshot).cell.skip true (.applyTouches ∅) 0
  pending := (∅ : HashMap String UInt64).insert Token.zeroToken.keyId 1700000000
  sweep := fun _ ↦ .before

/-- The state in which the flush has taken the touch. -/
def flushingSys : Sys Bool where
  cell := touchedSys.cell.set false (.waiting (.applyTouches touchedSys.pending))
  pending := ∅
  sweep := fun _ ↦ .before

/-- What the file system says when it is full. -/
def diskFull : StoreError := .io "No space left on device (os error 28)"

theorem run_touchedSys :
    Run strayTouch (Sys.start (some usedSnapshot.toJson) usedSnapshot) touchedSys :=
  .single ⟨true, .touch rfl rfl nofun⟩

theorem step_flushingSys : Step strayTouch false touchedSys flushingSys := .take rfl rfl nofun rfl

/-- The flush fails with nothing in the buffer. -/
theorem exists_failed_flush :
    ∃ s : Sys Bool, Touching strayTouch false flushingSys [] s ∧
      s.cell.phase false = .err diskFull ∧ s.pending = ∅ := by
  have hfails : Relation.ReflTransGen (DurableCell.Mutate storeSpec false) flushingSys.cell _ :=
    DurableCell.Mutate.alone_fails (DurableCell.State.set_phase_self false _ _) rfl rfl diskFull
  have hstart : Touching strayTouch false flushingSys [] flushingSys := .start
  have hfailed := hstart.own rfl hfails
  have hreturned := hfailed.step (.inl rfl)
    (.returnFailed (DurableCell.State.set_phase_self false _ _))
  exact ⟨_, hreturned, DurableCell.State.set_phase_self false _ _, rfl⟩

/-- **A failed flush may lose touches.** -/
theorem not_forall_staysPending :
    ¬ ∀ (calls : Bool → StoreCall) (file : Option Json) (base : IdentitySnapshot)
      (s₀ s₁ s : Sys Bool) (touches : List (String × UInt64)) (i : Bool) (e : StoreError),
      FileStore.load file = some base → Run calls (Sys.start file base) s₀ →
      calls i = .flushLastUsed → s₀.cell.phase i = .idle → Step calls i s₀ s₁ →
      Touching calls i s₁ touches s → s.cell.phase i = .err e →
      StaysPending s₀.pending s.pending := by
  intro h
  obtain ⟨s, htouching, herr, hempty⟩ := exists_failed_flush
  have hkept := h _ _ _ _ _ _ _ false _ (FileStore.load_toJson usedSnapshot) run_touchedSys rfl rfl
    step_flushingSys htouching herr
  obtain ⟨t, ht, -⟩ := hkept _ _ (AList.lookup_insert _)
  rw [hempty] at ht
  cases ht

/-- The key was not touched again. -/
theorem failed_flush_iff_flushingSys :
    ∃ s : Sys Bool, Touching strayTouch false flushingSys [] s ∧
      ¬ (StaysPending touchedSys.pending s.pending ∧
        NextFlushSets strayTouch false touchedSys.pending s) := by
  obtain ⟨s, htouching, herr, -⟩ := exists_failed_flush
  refine ⟨s, htouching, fun hkept ↦ ?_⟩
  have hagain := (failed_flush_iff (FileStore.load_toJson usedSnapshot) run_touchedSys rfl rfl
    step_flushingSys htouching ⟨_, herr⟩).mp hkept
  obtain ⟨t, ht, -⟩ := hagain _ _ (AList.lookup_insert _)
  cases ht

end Concurrent

end Vaiexia.Auth
