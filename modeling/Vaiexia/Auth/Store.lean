import Vaiexia.Auth.Snapshot

/-!
# The identity store

`FileStore` of `crates/vaiexia-server/src/auth/store.rs`, one call at a time: a mutator applies its
closure to the snapshot, persists the result and then publishes it.  The identity file is the JSON
document it holds, so that what serde reads is what it wrote.  `write_atomic` writes a temporary
file and renames it: from here it either replaces the document or fails without effect, and
`fault` is the error of a failure.

A call leaves a store `InSync`: opening the file gives the published snapshot.
-/

namespace Vaiexia.Auth

open Vaiexia.Lib

/-- `FileStore`. -/
structure FileStore where
  file : Option Json
  snap : IdentitySnapshot
  pendingTouch : HashMap String UInt64

namespace FileStore

/-- What `FileStore::open` reads: no file is an empty store, and another document is an error. -/
def load : Option Json → Option IdentitySnapshot
  | none => some .default
  | some doc => IdentitySnapshot.fromJson doc

/-- What was written is read back. -/
@[simp] theorem load_toJson (s : IdentitySnapshot) : load (some s.toJson) = some s :=
  IdentitySnapshot.fromJson_toJson s

/-- `FileStore::open`. -/
def openFile (file : Option Json) : Option FileStore :=
  (load file).map fun snap ↦ { file, snap, pendingTouch := ∅ }

/-- `FileStore::persist`. -/
def persist (fault : Option StoreError) (next : IdentitySnapshot) (file : Option Json) :
    Option Json × Except StoreError Unit :=
  match fault with
  | some e => (file, .error e)
  | none => (some next.toJson, .ok ())

/-- `FileStore::mutate`. -/
def mutate (fault : Option StoreError) (change : Change) (st : FileStore) :
    FileStore × Except StoreError Nat :=
  match change.apply st.snap with
  | .error e => (st, .error e)
  | .ok (next, n) =>
      match persist fault next st.file with
      | (_, .error e) => (st, .error e)
      | (file, .ok ()) => ({ st with file, snap := next }, .ok n)

/-- `FileStore::add_capability`. -/
def addCapability (fault : Option StoreError) (rec : CapabilityRecord) (st : FileStore) :
    FileStore × Except StoreError Nat := st.mutate fault (.addCapability rec)

/-- `FileStore::revoke_capability`. -/
def revokeCapability (fault : Option StoreError) (keyId : String) (st : FileStore) :
    FileStore × Except StoreError Nat := st.mutate fault (.revokeCapability keyId)

/-- `FileStore::touch_last_used`. -/
def touchLastUsed (keyId : String) (now : UInt64) (st : FileStore) : FileStore :=
  { st with pendingTouch := st.pendingTouch.insert keyId now }

/-- `FileStore::flush_last_used`.  The buffer is taken first, and lost when persisting fails. -/
def flushLastUsed (fault : Option StoreError) (st : FileStore) :
    FileStore × Except StoreError Nat :=
  let pending := st.pendingTouch
  let taken := { st with pendingTouch := ∅ }
  if pending.isEmpty then (taken, .ok 0)
  else taken.mutate fault (.applyTouches pending)

/-- `FileStore::prune_capabilities`. -/
def pruneCapabilities (fault : Option StoreError) (now grace : UInt64) (st : FileStore) :
    FileStore × Except StoreError Nat :=
  if !st.snap.capabilities.values.any (removable now grace) then (st, .ok 0)
  else
    match st.mutate fault (.prune now grace) with
    | (st', .error e) => (st', .error e)
    | (st', .ok removed) =>
        let kept := st'.pendingTouch.retain fun k _ ↦ (st'.snap.lookupCapability k).isSome
        ({ st' with pendingTouch := kept }, .ok removed)

/-- `FileStore::add_account`. -/
def addAccount (fault : Option StoreError) (rec : AccountRecord) (st : FileStore) :
    FileStore × Except StoreError Nat := st.mutate fault (.addAccount rec)

/-- `FileStore::is_empty`. -/
def isEmpty (st : FileStore) : Bool := st.snap.isEmpty

/-! ## What a call leaves -/

/-- The file holds the published snapshot. -/
def InSync (st : FileStore) : Prop := load st.file = some st.snap

/-- A store that was opened holds what the file holds. -/
theorem inSync_of_openFile {file : Option Json} {st : FileStore} (h : openFile file = some st) :
    st.InSync ∧ st.file = file := by
  obtain ⟨snap, hload, rfl⟩ := Option.map_eq_some_iff.mp h
  exact ⟨hload, rfl⟩

/-- Opening the file of a store gives the snapshot it has published. -/
theorem snap_of_openFile {st st' : FileStore} (h : openFile st.file = some st')
    (hsync : st.InSync) : st'.snap = st.snap := by
  obtain ⟨snap, hload, rfl⟩ := Option.map_eq_some_iff.mp h
  exact Option.some.inj (hload.symm.trans hsync)

/-- **`mutate`** either fails and changes nothing, or publishes what the closure makes of the
snapshot, with the file replaced before. -/
theorem mutate_cases (fault : Option StoreError) (change : Change) (st : FileStore) :
    (∃ e, st.mutate fault change = (st, .error e)) ∨
      ∃ next n, fault = none ∧ change.apply st.snap = .ok (next, n) ∧
        st.mutate fault change = ({ st with file := some next.toJson, snap := next }, .ok n) := by
  unfold mutate
  rcases happly : change.apply st.snap with e | ⟨next, n⟩
  · exact .inl ⟨e, rfl⟩
  · cases fault with
    | some e => exact .inl ⟨e, rfl⟩
    | none => exact .inr ⟨next, n, rfl, rfl, rfl⟩

/-- A revocation succeeds on a record that is there, and leaves it revoked. -/
theorem revokeCapability_cases (fault : Option StoreError) (k : String) (st : FileStore) :
    (∃ e, st.revokeCapability fault k = (st, .error e)) ∨
      ∃ st' n, st.revokeCapability fault k = (st', .ok n) ∧
        ∀ rec, st'.snap.lookupCapability k = some rec → rec.revoked = true := by
  rcases mutate_cases fault (.revokeCapability k) st with h | ⟨next, n, -, happly, h⟩
  · exact .inl h
  · refine .inr ⟨_, n, h, fun rec hrec ↦ ?_⟩
    rcases hr : st.snap.revokeCapability k with e | next'
    · simp [Change.apply, hr, Except.map] at happly
    · simp only [Change.apply, hr, Except.map, Except.ok.injEq, Prod.mk.injEq] at happly
      exact IdentitySnapshot.revoked_revokeCapability hr (happly.1 ▸ hrec)

/-- It meets no other failure than that of persisting. -/
theorem exists_revokeCapability {k : String} {rec : CapabilityRecord} {st : FileStore}
    (hk : st.snap.lookupCapability k = some rec) :
    ∃ st' n, st.revokeCapability none k = (st', .ok n) := by
  have hlookup : st.snap.capabilities.lookup k = some rec := hk
  simp only [revokeCapability, mutate, Change.apply, IdentitySnapshot.revokeCapability, hlookup]
  exact ⟨_, _, rfl⟩

end FileStore

/-! ## Calls -/

/-- The calls of an `IdentityStore` that change it, with what the clock says to those that read
it. -/
inductive StoreCall where
  | addCapability (rec : CapabilityRecord)
  | revokeCapability (keyId : String)
  | touchLastUsed (keyId : String) (now : UInt64)
  | flushLastUsed
  | pruneCapabilities (now grace : UInt64)
  | addAccount (rec : AccountRecord)

/-- Whether a call adds a capability. -/
def StoreCall.AddsCapability : StoreCall → Prop
  | .addCapability _ => True
  | _ => False

/-- A call on a `FileStore`. -/
def StoreCall.run (fault : Option StoreError) (st : FileStore) :
    StoreCall → FileStore × Except StoreError Nat
  | .addCapability rec => st.addCapability fault rec
  | .revokeCapability keyId => st.revokeCapability fault keyId
  | .touchLastUsed keyId now => (st.touchLastUsed keyId now, .ok 0)
  | .flushLastUsed => st.flushLastUsed fault
  | .pruneCapabilities now grace => st.pruneCapabilities fault now grace
  | .addAccount rec => st.addAccount fault rec

/-- File and snapshot stay, or both become what the closure makes of the snapshot. -/
def FileStore.Moves (change : Change) (st st' : FileStore) : Prop :=
  (st'.file = st.file ∧ st'.snap = st.snap) ∨
    ∃ next n, change.apply st.snap = .ok (next, n) ∧ st'.file = some next.toJson ∧
      st'.snap = next

theorem FileStore.mutate_moves (fault : Option StoreError) (change : Change) (st : FileStore) :
    st.Moves change (st.mutate fault change).1 := by
  rcases mutate_cases fault change st with ⟨e, h⟩ | ⟨next, n, -, happly, h⟩
  · rw [h]
    exact .inl ⟨rfl, rfl⟩
  · rw [h]
    exact .inr ⟨next, n, happly, rfl, rfl⟩

/-- The closure that a call hands to `mutate`, if it comes to that. -/
def StoreCall.change (st : FileStore) : StoreCall → Change
  | .addCapability rec => .addCapability rec
  | .revokeCapability keyId => .revokeCapability keyId
  | .touchLastUsed _ _ => .applyTouches ∅
  | .flushLastUsed => .applyTouches st.pendingTouch
  | .pruneCapabilities now grace => .prune now grace
  | .addAccount rec => .addAccount rec

/-- **What a call does to file and snapshot.**  Either nothing, or both become what its closure
makes of the snapshot. -/
theorem StoreCall.run_moves (fault : Option StoreError) (st : FileStore) (call : StoreCall) :
    st.Moves (call.change st) (call.run fault st).1 := by
  cases call with
  | addCapability rec => exact FileStore.mutate_moves fault _ st
  | revokeCapability keyId => exact FileStore.mutate_moves fault _ st
  | touchLastUsed keyId now => exact .inl ⟨rfl, rfl⟩
  | flushLastUsed =>
      simp only [run, FileStore.flushLastUsed]
      split
      · exact .inl ⟨rfl, rfl⟩
      · exact FileStore.mutate_moves fault _ { st with pendingTouch := ∅ }
  | pruneCapabilities now grace =>
      have hmoves := FileStore.mutate_moves fault (.prune now grace) st
      simp only [run, FileStore.pruneCapabilities]
      split
      · exact .inl ⟨rfl, rfl⟩
      · split
        · rename_i st' e h
          rw [h] at hmoves
          exact hmoves
        · rename_i st' removed h
          rw [h] at hmoves
          exact hmoves
  | addAccount rec => exact FileStore.mutate_moves fault _ st

/-- A call keeps the file in step with the snapshot. -/
theorem StoreCall.run_inSync (fault : Option StoreError) {st : FileStore} (call : StoreCall)
    (h : st.InSync) : (call.run fault st).1.InSync := by
  rcases call.run_moves fault st with ⟨hfile, hsnap⟩ | ⟨next, n, -, hfile, hsnap⟩
  · rw [FileStore.InSync, hfile, hsnap]
    exact h
  · rw [FileStore.InSync, hfile, hsnap]
    exact FileStore.load_toJson next

/-- A call that adds no capability leaves records that were there, aged. -/
theorem StoreCall.run_aged (fault : Option StoreError) (st : FileStore) {call : StoreCall}
    (hcall : ¬ call.AddsCapability) : st.snap.Aged (call.run fault st).1.snap := by
  intro k rec' hk
  rcases call.run_moves fault st with ⟨-, hsnap⟩ | ⟨next, n, happly, -, hsnap⟩
  · rw [hsnap] at hk
    exact ⟨rec', hk, .refl rec'⟩
  · rw [hsnap] at hk
    rcases Change.apply_capability happly hk with ⟨hadd, -⟩ | haged
    · cases call <;> simp_all [StoreCall.change, StoreCall.AddsCapability]
    · exact haged

/-- Whether a call adds a capability under the key id. -/
def StoreCall.Adds (k : String) : StoreCall → Prop
  | .addCapability rec => rec.keyId = k
  | _ => False

/-- **What a call leaves of a capability.**  Unless it adds one under its key id, the record is
there after it, aged, and revoked only if that is what the call did; or else it was pruned. -/
theorem StoreCall.run_kept (fault : Option StoreError) {st : FileStore} {call : StoreCall}
    {k : String} (hadds : ¬ call.Adds k) {rec : CapabilityRecord}
    (hk : st.snap.lookupCapability k = some rec) :
    (∃ rec', (call.run fault st).1.snap.lookupCapability k = some rec' ∧ rec.Ages rec' ∧
      (rec'.revoked = rec.revoked ∨
        call = .revokeCapability k ∧ ∃ n, (call.run fault st).2 = .ok n)) ∨
    (call.run fault st).1.snap.lookupCapability k = none ∧
      ∃ now grace, call = .pruneCapabilities now grace ∧ removable now grace rec = true := by
  rcases call.run_moves fault st with ⟨-, hsnap⟩ | ⟨next, n, happly, -, hsnap⟩
  · rw [hsnap]
    exact .inl ⟨rec, hk, .refl rec, .inl rfl⟩
  · rw [hsnap]
    have hchange : ¬ (call.change st).Adds k := by cases call <;> exact hadds
    rcases Change.apply_kept happly hchange hk with
      ⟨rec', hk', hages, hsame | hrevoke⟩ | ⟨hnone, now, grace, hprune, hremove⟩
    · exact .inl ⟨rec', hk', hages, .inl hsame⟩
    · obtain rfl : call = .revokeCapability k := by
        cases call <;> simp_all [StoreCall.change]
      refine .inl ⟨rec', hk', hages, ?_⟩
      rcases FileStore.mutate_cases fault (.revokeCapability k) st with ⟨e, h⟩ | ⟨_, n, -, -, h⟩
      · -- a failed call leaves the record as it was
        have hkeep : (StoreCall.run fault st (.revokeCapability k)).1.snap = st.snap :=
          congrArg (fun r ↦ r.1.snap) h
        rw [← hsnap, hkeep, hk] at hk'
        exact .inl (congrArg CapabilityRecord.revoked (Option.some.inj hk')).symm
      · exact .inr ⟨rfl, n, congrArg Prod.snd h⟩
    · obtain rfl : call = .pruneCapabilities now grace := by
        cases call <;> simp_all [StoreCall.change]
      exact .inr ⟨hnone, now, grace, rfl, hremove⟩

/-- A call that does not add a capability under a key id brings none there. -/
theorem StoreCall.run_none (fault : Option StoreError) {st : FileStore} {call : StoreCall}
    {k : String} (hadds : ¬ call.Adds k) (hk : st.snap.lookupCapability k = none) :
    (call.run fault st).1.snap.lookupCapability k = none := by
  refine Option.eq_none_iff_forall_not_mem.mpr fun rec' hk' ↦ ?_
  rcases call.run_moves fault st with ⟨-, hsnap⟩ | ⟨next, n, happly, -, hsnap⟩
  · rw [hsnap, hk] at hk'
    cases hk'
  · rw [hsnap] at hk'
    rcases Change.apply_capability happly hk' with ⟨hadd, hkey⟩ | ⟨rec, hrec, -⟩
    · cases call <;> simp_all [StoreCall.change, StoreCall.Adds]
    · rw [hk] at hrec
      cases hrec

end Vaiexia.Auth
