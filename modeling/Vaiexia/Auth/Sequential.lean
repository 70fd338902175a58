import Vaiexia.Auth.Concurrent

/-!
# A call alone

`StoreCall.run` makes a call in one step, and `Concurrent.Step` in its atomic ones.  A call that
meets nobody does the same in both (`exists_run_of_call`): the steps of `mutate` make of file and
snapshot what the function makes of them, a flush takes the buffer before it and a prune sweeps it
afterwards.  A hash map is the same if it has the same entries, in whatever order.
-/

namespace Vaiexia.Auth

open Vaiexia.Lib

/-- Equal but for the order of the pending touches. -/
structure FileStore.Same (st st' : FileStore) : Prop where
  file : st.file = st'.file
  snap : st.snap = st'.snap
  pending : ∀ k, st.pendingTouch.lookup k = st'.pendingTouch.lookup k

theorem FileStore.Same.refl (st : FileStore) : st.Same st := ⟨rfl, rfl, fun _ ↦ rfl⟩

namespace Concurrent

variable {ι : Type} [DecidableEq ι] {calls : ι → StoreCall} {i : ι} {s : Sys ι}

/-- The call is yet to be made, and nobody is in its way. -/
structure Sys.Quiet (s : Sys ι) (i : ι) : Prop where
  idle : s.cell.phase i = .idle
  unlocked : s.cell.lock = none
  pendingFree : s.PendingFree

/-- What a call is when `mutate` has come back, and when it has returned. -/
def leaving (change : Change) : Except StoreError Nat →
    DurableCell.Phase IdentitySnapshot Change Nat StoreError
  | .ok n => .released change n
  | .error e => .failed e

@[inherit_doc leaving]
def returned (change : Change) : Except StoreError Nat →
    DurableCell.Phase IdentitySnapshot Change Nat StoreError
  | .ok n => .ok change n
  | .error e => .err e

/-- **`mutate` alone**: from waiting for the lock to its release, the steps do what the function
does. -/
theorem exists_run_mutate {change : Change} (hi : s.cell.phase i = .waiting change)
    (hfree : s.cell.lock = none) (fault : Option StoreError) :
    ∃ cell, Run calls s { s with cell } ∧
      ({ s with cell } : Sys ι).view = (s.view.mutate fault change).1 ∧
      cell.phase i = leaving change (s.view.mutate fault change).2 := by
  rcases happly : change.apply s.cell.snap with e | ⟨next, n⟩
  · have hmutate : s.view.mutate fault change = (s.view, .error e) := by
      simp only [FileStore.mutate, Sys.view, happly]
    rw [hmutate]
    exact ⟨_, Run.of_mutate (DurableCell.Mutate.alone_refuses hi hfree happly), rfl,
      DurableCell.State.set_phase_self i _ _⟩
  · cases fault with
    | some e =>
        have hmutate : s.view.mutate (some e) change = (s.view, .error e) := by
          simp only [FileStore.mutate, FileStore.persist, Sys.view, happly]
        rw [hmutate]
        exact ⟨_, Run.of_mutate (DurableCell.Mutate.alone_fails hi hfree happly e), rfl,
          DurableCell.State.set_phase_self i _ _⟩
    | none =>
        have hmutate : s.view.mutate none change
            = ({ s.view with file := some next.toJson, snap := next }, .ok n) := by
          simp only [FileStore.mutate, FileStore.persist, Sys.view, happly]
        rw [hmutate]
        exact ⟨_, Run.of_mutate (DurableCell.Mutate.alone hi hfree happly), rfl,
          DurableCell.State.set_phase_self i _ _⟩

/-- Then the call returns, a prune once it has swept. -/
theorem exists_run_return {change : Change} {result : Except StoreError Nat}
    (hi : s.cell.phase i = leaving change result)
    (hswept : ∀ now grace, calls i = .pruneCapabilities now grace →
      s.sweep i = .done ∨ ∃ e, result = .error e) :
    ∃ s', Run calls s s' ∧ s'.view = s.view ∧ s'.cell.phase i = returned change result := by
  cases result with
  | ok n =>
      refine ⟨_, .single ⟨i, .return hi fun now grace hcall ↦ ?_⟩, rfl,
        DurableCell.State.set_phase_self i _ _⟩
      rcases hswept now grace hcall with hdone | ⟨e, herr⟩
      · exact hdone
      · cases herr
  | error e =>
      exact ⟨_, .single ⟨i, .returnFailed hi⟩, rfl, DurableCell.State.set_phase_self i _ _⟩

/-- A call that only mutates. -/
theorem exists_run_waiting {change : Change} (hi : s.cell.phase i = .waiting change)
    (hfree : s.cell.lock = none) (hcall : ∀ now grace, calls i ≠ .pruneCapabilities now grace)
    (fault : Option StoreError) :
    ∃ s', Run calls s s' ∧ s'.view = (s.view.mutate fault change).1 ∧
      s'.cell.phase i = returned change (s.view.mutate fault change).2 := by
  obtain ⟨cell, hmutate, hview, hphase⟩ := @exists_run_mutate ι _ calls i s _ hi hfree fault
  obtain ⟨s', hreturn, hsame, hreturned⟩ := @exists_run_return ι _ calls i { s with cell } _ _
    hphase fun now grace h ↦ absurd h (hcall now grace)
  exact ⟨s', hmutate.trans hreturn, hsame.trans hview, hreturned⟩

/-- Of the keys that a sweep has still to do it drops those that are not in the snapshot. -/
theorem exists_run_sweep {todo : List String} (hsweep : s.sweep i = .sweeping todo) :
    ∃ s', Run calls s s' ∧ s'.cell = s.cell ∧ s'.sweep i = .done ∧
      ∀ k, s'.pending.lookup k =
        if k ∈ todo ∧ s.cell.snap.lookupCapability k = none then none else s.pending.lookup k := by
  induction todo generalizing s with
  | nil =>
      exact ⟨_, .single ⟨i, .sweepEnd hsweep⟩, rfl, Function.update_self .., fun k ↦ by simp⟩
  | cons key todo ih =>
      let pending := if (s.cell.snap.lookupCapability key).isSome then s.pending
        else s.pending.erase key
      let next : Sys ι :=
        { s with pending, sweep := Function.update s.sweep i (.sweeping todo) }
      have hkey : Run calls s next := .single ⟨i, .sweepKey hsweep⟩
      obtain ⟨s', hrun, hcell, hdone, hlookup⟩ := ih (s := next) (Function.update_self ..)
      refine ⟨s', hkey.trans hrun, hcell, hdone, fun k ↦ ?_⟩
      have hpending : AList.lookup k pending =
          if k = key ∧ s.cell.snap.lookupCapability k = none then none
          else s.pending.lookup k := by
        rcases eq_or_ne k key with rfl | hne
        · cases hrec : s.cell.snap.lookupCapability k with
          | none => simp [pending, hrec]
          | some rec => simp [pending, hrec]
        · cases hrec : s.cell.snap.lookupCapability key with
          | none => simp [pending, hrec, hne, AList.lookup_erase_ne hne]
          | some rec => simp [pending, hrec, hne]
      rw [hlookup k, show AList.lookup k next.pending = AList.lookup k pending from rfl, hpending]
      change (if k ∈ todo ∧ s.cell.snap.lookupCapability k = none then none else _) = _
      by_cases hnone : s.cell.snap.lookupCapability k = none <;> simp [hnone]
      by_cases hkey : k = key <;> simp [hkey]

/-- What a sweep of all keys leaves is what `retain` does. -/
theorem lookup_retain (snap : IdentitySnapshot) (pending : HashMap String UInt64) (k : String) :
    (pending.retain fun k _ ↦ (snap.lookupCapability k).isSome).lookup k =
      if k ∈ pending.keys ∧ snap.lookupCapability k = none then none else pending.lookup k := by
  rw [HashMap.lookup_retain]
  cases hrec : snap.lookupCapability k with
  | some rec => cases pending.lookup k <;> simp
  | none =>
      by_cases hmem : k ∈ pending.keys
      · simp [hmem]
      · have hnone : pending.lookup k = none := AList.lookup_eq_none.mpr hmem
        simp [hmem, hnone]

/-- The call is made, and returns what the function returns: `change` is the closure it has handed
to `mutate`, or would have. -/
def Completes (calls : ι → StoreCall) (i : ι) (fault : Option StoreError) (s : Sys ι) : Prop :=
  ∃ s' change, Run calls s s' ∧ s'.view.Same ((calls i).run fault s.view).1 ∧
    s'.cell.phase i = returned change ((calls i).run fault s.view).2

theorem completes_direct (h : s.Quiet i) {change : Change} (hcall : direct (calls i) = some change)
    (hnot : ∀ now grace, calls i ≠ .pruneCapabilities now grace) {fault : Option StoreError}
    (hrun : (calls i).run fault s.view = s.view.mutate fault change) :
    Completes calls i fault s := by
  obtain ⟨s', hsteps, hview, hphase⟩ := @exists_run_waiting ι _ calls i
    { s with cell := s.cell.set i (.waiting change) } change
    (DurableCell.State.set_phase_self i _ _) h.unlocked hnot fault
  rw [Completes, hrun]
  exact ⟨s', change, .head ⟨i, .submit h.idle hcall⟩ hsteps, hview ▸ .refl _, hphase⟩

theorem completes_touch (h : s.Quiet i) {keyId : String} {now : UInt64}
    (hcall : calls i = .touchLastUsed keyId now) (fault : Option StoreError) :
    Completes calls i fault s := by
  let touched : Sys ι :=
    { s with
      cell := s.cell.skip i (.applyTouches ∅) 0
      pending := s.pending.insert keyId now }
  have htouch : Step calls i s touched := .touch h.idle hcall h.pendingFree
  obtain ⟨s', hreturn, hview, hphase⟩ := @exists_run_return ι _ calls i touched
    (.applyTouches ∅) (.ok 0) (DurableCell.State.skip_phase_self i _ _ _)
    fun now grace h ↦ nomatch hcall.symm.trans h
  rw [Completes, hcall]
  exact ⟨s', _, .head ⟨i, htouch⟩ hreturn, hview ▸ .refl _, hphase⟩

theorem completes_flush (h : s.Quiet i) (hcall : calls i = .flushLastUsed)
    (fault : Option StoreError) : Completes calls i fault s := by
  rw [Completes, hcall]
  cases hempty : s.pending.isEmpty with
  | true =>
      let taken : Sys ι :=
        { s with cell := s.cell.skip i (.applyTouches s.pending) 0, pending := ∅ }
      have htake : Step calls i s taken := .takeNothing h.idle hcall h.pendingFree hempty
      obtain ⟨s', hreturn, hview, hphase⟩ := @exists_run_return ι _ calls i taken
        (.applyTouches s.pending) (.ok 0) (DurableCell.State.skip_phase_self i _ _ _)
        fun now grace h ↦ nomatch hcall.symm.trans h
      have hrun : StoreCall.flushLastUsed.run fault s.view
          = ({ s.view with pendingTouch := ∅ }, .ok 0) := if_pos hempty
      rw [hrun]
      exact ⟨s', _, .head ⟨i, htake⟩ hreturn, hview ▸ .refl _, hphase⟩
  | false =>
      let taken : Sys ι :=
        { s with cell := s.cell.set i (.waiting (.applyTouches s.pending)), pending := ∅ }
      have htake : Step calls i s taken := .take h.idle hcall h.pendingFree hempty
      obtain ⟨s', hsteps, hview, hphase⟩ := @exists_run_waiting ι _ calls i taken
        (.applyTouches s.pending) (DurableCell.State.set_phase_self i _ _) h.unlocked
        (fun now grace h ↦ nomatch hcall.symm.trans h) fault
      have hrun : StoreCall.flushLastUsed.run fault s.view
          = taken.view.mutate fault (.applyTouches s.pending) :=
        if_neg (ne_true_of_eq_false hempty)
      rw [hrun]
      exact ⟨s', _, .head ⟨i, htake⟩ hsteps, hview ▸ .refl _, hphase⟩

theorem completes_prune (h : s.Quiet i) (hbefore : s.sweep i = .before) {now grace : UInt64}
    (hcall : calls i = .pruneCapabilities now grace) (fault : Option StoreError) :
    Completes calls i fault s := by
  rw [Completes, hcall]
  cases hscan : s.cell.snap.capabilities.values.any (removable now grace) with
  | false =>
      let scanned : Sys ι :=
        { s with
          cell := s.cell.skip i (.prune now grace) 0
          sweep := Function.update s.sweep i .done }
      have hstep : Step calls i s scanned := .scanNothing h.idle hcall hscan
      obtain ⟨s', hreturn, hview, hphase⟩ := @exists_run_return ι _ calls i scanned
        (.prune now grace) (.ok 0) (DurableCell.State.skip_phase_self i _ _ _)
        fun _ _ _ ↦ .inl (Function.update_self ..)
      have hrun : (StoreCall.pruneCapabilities now grace).run fault s.view = (s.view, .ok 0) := by
        simp [StoreCall.run, FileStore.pruneCapabilities, Sys.view, hscan]
      rw [hrun]
      exact ⟨s', _, .head ⟨i, hstep⟩ hreturn, hview ▸ .refl _, hphase⟩
  | true =>
      let scanned : Sys ι := { s with cell := s.cell.set i (.waiting (.prune now grace)) }
      have hstep : Step calls i s scanned := .scan h.idle hcall hscan
      obtain ⟨cell, hmutate, hview, hphase⟩ := @exists_run_mutate ι _ calls i scanned _
        (DurableCell.State.set_phase_self i _ _) h.unlocked fault
      have hscanned : scanned.view = s.view := rfl
      rw [hscanned] at hview hphase
      have hscan' : (s.view.snap.capabilities.values.any (removable now grace)) = true := hscan
      rcases hresult : s.view.mutate fault (.prune now grace) with ⟨st', e | removed⟩
      · rw [hresult] at hview hphase
        obtain ⟨s', hreturn, hsame, hreturned⟩ := @exists_run_return ι _ calls i
          { scanned with cell } _ (.error e) hphase fun _ _ _ ↦ .inr ⟨e, rfl⟩
        have hrun : (StoreCall.pruneCapabilities now grace).run fault s.view = (st', .error e) := by
          simp [StoreCall.run, FileStore.pruneCapabilities, hscan', hresult]
        rw [hrun]
        exact ⟨s', _, .head ⟨i, hstep⟩ (hmutate.trans hreturn), (hsame.trans hview) ▸ .refl _,
          hreturned⟩
      · rw [hresult] at hview hphase
        -- the sweep, over the keys in the order they happen to be in
        let sweeping : Sys ι :=
          { scanned with cell, sweep := Function.update s.sweep i (.sweeping s.pending.keys) }
        have hstart : Step calls i { scanned with cell } sweeping :=
          .sweepStart hphase hcall hbefore h.pendingFree (.refl _)
        obtain ⟨swept, hsweep, hcell, hdone, hlookup⟩ := @exists_run_sweep ι _ calls i sweeping _
          (Function.update_self ..)
        have hphase' : swept.cell.phase i = .released (.prune now grace) removed := by
          rw [hcell]
          exact hphase
        obtain ⟨s', hreturn, hsame, hreturned⟩ := @exists_run_return ι _ calls i swept
          (.prune now grace) (.ok removed) hphase' fun _ _ _ ↦ .inl hdone
        have hsteps := (hmutate.tail ⟨i, hstart⟩).trans (hsweep.trans hreturn)
        have hrun : (StoreCall.pruneCapabilities now grace).run fault s.view =
            ({ st' with pendingTouch :=
              st'.pendingTouch.retain fun k _ ↦ (st'.snap.lookupCapability k).isSome },
              .ok removed) := by
          simp [StoreCall.run, FileStore.pruneCapabilities, hscan', hresult]
        rw [hrun]
        refine ⟨s', _, .head ⟨i, hstep⟩ hsteps, ?_, hreturned⟩
        obtain rfl : ({ scanned with cell } : Sys ι).view = st' := hview
        rw [hsame]
        exact ⟨congrArg DurableCell.State.disk hcell, congrArg DurableCell.State.snap hcell,
          fun k ↦ (hlookup k).trans (lookup_retain cell.snap s.pending k).symm⟩

/-- **A call alone does what the function does**, whatever call it is and whether it is written or
not. -/
theorem completes (h : s.Quiet i) (hbefore : s.sweep i = .before) (fault : Option StoreError) :
    Completes calls i fault s := by
  cases hcall : calls i with
  | addCapability rec =>
      exact completes_direct h (by rw [hcall]; rfl) (by simp [hcall]) (by rw [hcall]; rfl)
  | revokeCapability keyId =>
      exact completes_direct h (by rw [hcall]; rfl) (by simp [hcall]) (by rw [hcall]; rfl)
  | addAccount rec =>
      exact completes_direct h (by rw [hcall]; rfl) (by simp [hcall]) (by rw [hcall]; rfl)
  | touchLastUsed keyId now => exact completes_touch h hcall fault
  | flushLastUsed => exact completes_flush h hcall fault
  | pruneCapabilities now grace => exact completes_prune h hbefore hcall fault

end Concurrent

end Vaiexia.Auth
