import Mathlib.Logic.Relation
import Vaiexia.Auth.Verifier
import Vaiexia.Lib.DurableCell

/-!
# Concurrent calls on the identity store

The calls of `FileStore` from any number of threads, in their atomic steps.  What `mutate` does is
the protocol of a durable cell; `flush_last_used` and `prune_capabilities` do part of their work
outside: a flush takes the buffer of pending touches before it waits for the lock, and a prune
looks at the published snapshot before it waits and drops touches of pruned keys after it has
released the lock, key by key, each against the snapshot of that moment.

`calls` says which call each thread of the run makes.  `Step.cell` maps a step to one of the cell,
so that the invariant of the library holds of every run; what is proved of the store comes from
there.
-/

namespace Vaiexia.Auth

open Vaiexia.Lib
open DurableCell (Phase Entry)

namespace Concurrent

/-- The identity store as a durable cell. -/
def storeSpec : DurableCell.Spec IdentitySnapshot (Option Json) Change Nat StoreError where
  apply := Change.apply
  write := fun s ↦ some s.toJson
  read := FileStore.load
  read_write := FileStore.load_toJson

/-- The cell of a store. -/
abbrev Cell (ι : Type) :=
  DurableCell.State ι IdentitySnapshot (Option Json) Change Nat StoreError

/-- How far a prune has come with dropping touches. -/
inductive Sweep where
  | before
  | sweeping (todo : List String)
  | done

/-- The cell, the buffer of pending touches, and the sweeps of prunes. -/
structure Sys (ι : Type) where
  cell : Cell ι
  pending : HashMap String UInt64
  sweep : ι → Sweep

/-- The store as a reader sees it. -/
def Sys.view {ι : Type} (s : Sys ι) : FileStore where
  file := s.cell.disk
  snap := s.cell.snap
  pendingTouch := s.pending

/-- Nobody sweeps, so that the buffer is not locked. -/
def Sys.PendingFree {ι : Type} (s : Sys ι) : Prop := ∀ j todo, s.sweep j ≠ .sweeping todo

/-- A store that was opened and not called yet. -/
def Sys.start {ι : Type} (file : Option Json) (snap : IdentitySnapshot) : Sys ι where
  cell := .start snap file
  pending := ∅
  sweep := fun _ ↦ .before

/-! ## Steps -/

section Steps

variable {ι : Type} (calls : ι → StoreCall)

/-- The closures that a call may hand to `mutate`.  A flush applies times that touches of the run
have buffered. -/
def Submits (i : ι) (change : Change) : Prop :=
  match calls i with
  | .addCapability rec => change = .addCapability rec
  | .revokeCapability keyId => change = .revokeCapability keyId
  | .touchLastUsed _ _ => change = .applyTouches ∅
  | .flushLastUsed =>
      ∃ pending : HashMap String UInt64, change = .applyTouches pending ∧
        ∀ k t, pending.lookup k = some t → ∃ j, calls j = .touchLastUsed k t
  | .pruneCapabilities now grace => change = .prune now grace
  | .addAccount rec => change = .addAccount rec

/-- The closure of a call that does nothing but `mutate`. -/
def direct : StoreCall → Option Change
  | .addCapability rec => some (.addCapability rec)
  | .revokeCapability keyId => some (.revokeCapability keyId)
  | .addAccount rec => some (.addAccount rec)
  | _ => none

/-- One step of a call. -/
inductive Step [DecidableEq ι] (i : ι) : Sys ι → Sys ι → Prop
  | submit {s : Sys ι} {change : Change} (hi : s.cell.phase i = .idle)
      (hcall : direct (calls i) = some change) :
      Step i s { s with cell := s.cell.set i (.waiting change) }
  | touch {s : Sys ι} {keyId : String} {now : UInt64} (hi : s.cell.phase i = .idle)
      (hcall : calls i = .touchLastUsed keyId now) (hfree : s.PendingFree) :
      Step i s { s with
        cell := s.cell.skip i (.applyTouches ∅) 0
        pending := s.pending.insert keyId now }
  | takeNothing {s : Sys ι} (hi : s.cell.phase i = .idle) (hcall : calls i = .flushLastUsed)
      (hfree : s.PendingFree) (hempty : s.pending.isEmpty = true) :
      Step i s { s with cell := s.cell.skip i (.applyTouches s.pending) 0, pending := ∅ }
  | take {s : Sys ι} (hi : s.cell.phase i = .idle) (hcall : calls i = .flushLastUsed)
      (hfree : s.PendingFree) (hempty : s.pending.isEmpty = false) :
      Step i s { s with
        cell := s.cell.set i (.waiting (.applyTouches s.pending))
        pending := ∅ }
  | scanNothing {s : Sys ι} {now grace : UInt64} (hi : s.cell.phase i = .idle)
      (hcall : calls i = .pruneCapabilities now grace)
      (hscan : s.cell.snap.capabilities.values.any (removable now grace) = false) :
      Step i s { s with
        cell := s.cell.skip i (.prune now grace) 0
        sweep := Function.update s.sweep i .done }
  | scan {s : Sys ι} {now grace : UInt64} (hi : s.cell.phase i = .idle)
      (hcall : calls i = .pruneCapabilities now grace)
      (hscan : s.cell.snap.capabilities.values.any (removable now grace) = true) :
      Step i s { s with cell := s.cell.set i (.waiting (.prune now grace)) }
  | mutate {s : Sys ι} {cell : Cell ι} (h : DurableCell.Mutate storeSpec i s.cell cell) :
      Step i s { s with cell }
  /-- A hash map is traversed in any order. -/
  | sweepStart {s : Sys ι} {now grace : UInt64} {change : Change} {n : Nat} {todo : List String}
      (hi : s.cell.phase i = .released change n) (hcall : calls i = .pruneCapabilities now grace)
      (hbefore : s.sweep i = .before) (hfree : s.PendingFree)
      (htodo : todo.Perm s.pending.keys) :
      Step i s { s with sweep := Function.update s.sweep i (.sweeping todo) }
  | sweepKey {s : Sys ι} {k : String} {todo : List String}
      (hsweep : s.sweep i = .sweeping (k :: todo)) :
      Step i s { s with
        pending := if (s.cell.snap.lookupCapability k).isSome then s.pending else s.pending.erase k
        sweep := Function.update s.sweep i (.sweeping todo) }
  | sweepEnd {s : Sys ι} (hsweep : s.sweep i = .sweeping []) :
      Step i s { s with sweep := Function.update s.sweep i .done }
  | «return» {s : Sys ι} {change : Change} {n : Nat} (hi : s.cell.phase i = .released change n)
      (hswept : ∀ now grace, calls i = .pruneCapabilities now grace → s.sweep i = .done) :
      Step i s { s with cell := s.cell.set i (.ok change n) }
  | returnFailed {s : Sys ι} {e : StoreError} (hi : s.cell.phase i = .failed e) :
      Step i s { s with cell := s.cell.set i (.err e) }

end Steps

/-- The daemon stops and opens the file again. -/
inductive Restart {ι : Type} : Sys ι → Sys ι → Prop
  | mk {s : Sys ι} {cell : Cell ι} (h : DurableCell.Restart storeSpec s.cell cell) :
      Restart s { cell, pending := ∅, sweep := fun _ ↦ .before }

section Runs

variable {ι : Type} [DecidableEq ι] (calls : ι → StoreCall)

/-- Any number of steps of any calls. -/
abbrev Run : Sys ι → Sys ι → Prop := Relation.ReflTransGen fun s s' ↦ ∃ i, Step calls i s s'

/-- The same with restarts. -/
abbrev RunOrRestart : Sys ι → Sys ι → Prop :=
  Relation.ReflTransGen fun s s' ↦ (∃ i, Step calls i s s') ∨ Restart s s'

end Runs

/-! ## The invariant -/

section Invariant

variable {ι : Type} {calls : ι → StoreCall} {base : IdentitySnapshot} {i : ι} {s s' : Sys ι}

/-- The invariant of the cell, and where pending touches come from. -/
structure Inv (calls : ι → StoreCall) (base : IdentitySnapshot) (s : Sys ι) : Prop where
  cell : DurableCell.Inv storeSpec (Submits calls) base s.cell
  pending : ∀ k t, s.pending.lookup k = some t → ∃ j, calls j = .touchLastUsed k t

theorem submits_direct {change : Change} (h : direct (calls i) = some change) :
    Submits calls i change := by
  unfold Submits
  cases hcall : calls i <;> simp_all [direct]

/-- **A step of a call is a step of the cell**, or does nothing to it. -/
theorem Step.cell [DecidableEq ι] (hstep : Step calls i s s') (h : Inv calls base s) :
    s'.cell = s.cell ∨ DurableCell.Step storeSpec (Submits calls) i s.cell s'.cell := by
  cases hstep with
  | submit hi hcall => exact .inr (.submit hi (submits_direct hcall))
  | touch hi hcall hfree =>
      refine .inr (.skip hi ?_ rfl)
      simp [Submits, hcall]
  | takeNothing hi hcall hfree hempty =>
      obtain hpending := HashMap.isEmpty_iff.mp hempty
      refine .inr (.skip hi ?_ ?_)
      · rw [Submits, hcall]
        exact ⟨_, rfl, h.pending⟩
      · rw [hpending]
        rfl
  | take hi hcall hfree hempty =>
      refine .inr (.submit hi ?_)
      rw [Submits, hcall]
      exact ⟨_, rfl, h.pending⟩
  | scanNothing hi hcall hscan =>
      refine .inr (.skip hi ?_ ?_)
      · simp [Submits, hcall]
      · exact congrArg Except.ok (IdentitySnapshot.prune_eq_self hscan)
  | scan hi hcall hscan =>
      refine .inr (.submit hi ?_)
      simp [Submits, hcall]
  | mutate hmutate => exact .inr (.mutate hmutate)
  | sweepStart | sweepKey | sweepEnd => exact .inl rfl
  | «return» hi hswept => exact .inr (.return hi)
  | returnFailed hi => exact .inr (.returnFailed hi)

theorem Step.pending [DecidableEq ι] (hstep : Step calls i s s') (h : Inv calls base s)
    (k : String) (t : UInt64) (hk : s'.pending.lookup k = some t) :
    ∃ j, calls j = .touchLastUsed k t := by
  cases hstep with
  | @touch keyId now hi hcall hfree =>
      change AList.lookup k (AList.insert keyId now s.pending) = some t at hk
      rw [HashMap.lookup_insert_eq] at hk
      split at hk
      · rename_i heq
        rw [← Option.some.inj hk, heq]
        exact ⟨i, hcall⟩
      · exact h.pending k t hk
  | takeNothing | take => cases hk
  | sweepKey hsweep =>
      refine h.pending k t ?_
      dsimp only at hk
      split at hk
      · exact hk
      · exact HashMap.lookup_of_erase hk
  | submit | scanNothing | scan | mutate | sweepStart | sweepEnd | «return» | returnFailed =>
      exact h.pending k t hk

/-- **A step keeps the invariant.** -/
theorem Step.inv [DecidableEq ι] (hstep : Step calls i s s') (h : Inv calls base s) :
    Inv calls base s' where
  cell := by
    rcases hstep.cell h with heq | hcell
    · rw [heq]
      exact h.cell
    · exact hcell.inv h.cell
  pending := hstep.pending h

theorem Restart.inv (hrestart : Restart s s') (h : Inv calls base s) : Inv calls base s' := by
  cases hrestart with
  | mk hcell => exact ⟨hcell.inv h.cell, fun _ _ hk ↦ nomatch hk⟩

theorem Inv.start {file : Option Json} (hload : FileStore.load file = some base) :
    Inv calls base (Sys.start file base) :=
  ⟨.start hload, fun _ _ hk ↦ nomatch hk⟩

theorem Inv.runOrRestart [DecidableEq ι] (h : Inv calls base s)
    (hrun : RunOrRestart calls s s') : Inv calls base s' := by
  induction hrun with
  | refl => exact h
  | tail _ hmove ih =>
      rcases hmove with ⟨i, hstep⟩ | hrestart
      · exact hstep.inv ih
      · exact hrestart.inv ih

end Invariant

/-! ## The store is a durable serial object -/

section Serial

variable {ι : Type} {calls : ι → StoreCall} {base : IdentitySnapshot} {i : ι} {s s' : Sys ι}

/-- An order of calls, with the closures they applied and the numbers they return, that leads from
one snapshot to another.  No call is in it twice, and every call that has returned `Ok` is in it,
with what it returned. -/
structure SerialOrder (calls : ι → StoreCall) (s : Sys ι) (base : IdentitySnapshot)
    (order : List (Entry ι Change Nat)) (snap : IdentitySnapshot) : Prop where
  replays : storeSpec.Replays base order snap
  once : (order.map Entry.call).Nodup
  submits : ∀ e ∈ order, Submits calls e.call e.change
  returned : ∀ i change n, s.cell.phase i = .ok change n → ⟨i, change, n⟩ ∈ order

/-- The call has returned `Ok`. -/
def Returned (s : Sys ι) (e : Entry ι Change Nat) : Prop :=
  s.cell.phase e.call = .ok e.change e.result

/-- The call has published and released the lock, and has not returned yet. -/
def Leaving (s : Sys ι) (e : Entry ι Change Nat) : Prop :=
  s.cell.phase e.call = .released e.change e.result

/-- The call has the write lock. -/
def Holding (s : Sys ι) (e : Entry ι Change Nat) : Prop := s.cell.lock = some e.call

theorem Inv.serialOrder (h : Inv calls base s) :
    SerialOrder calls s base s.cell.log s.cell.snap where
  replays := h.cell.replays
  once := h.cell.once
  submits := h.cell.submitted
  returned := by
    intro i change n hi
    have hcall := h.cell.calls i
    rw [hi] at hcall
    exact hcall.2

/-- Who is in the log. -/
theorem Inv.accounted (h : Inv calls base s) (hlost : ∀ i, s.cell.phase i ≠ .lost)
    {e : Entry ι Change Nat} (he : e ∈ s.cell.log) :
    Returned s e ∨ Leaving s e ∨ Holding s e := by
  rcases h.cell.phase_of_mem he with hphase | hphase | hphase | hphase
  · have hcall := h.cell.calls e.call
    rw [hphase] at hcall
    exact .inr (.inr hcall.1)
  · exact .inr (.inl hphase)
  · exact .inl hphase
  · exact absurd hphase (hlost e.call)

variable [DecidableEq ι]

/-- Without restarts no call is lost. -/
theorem Run.not_lost {file : Option Json} (hload : FileStore.load file = some base)
    (hrun : Run calls (Sys.start file base) s) :
    Inv calls base s ∧ ∀ i, s.cell.phase i ≠ .lost := by
  induction hrun with
  | refl => exact ⟨.start hload, fun i h ↦ nomatch h⟩
  | tail _ hmove ih =>
      obtain ⟨hinv, hlost⟩ := ih
      obtain ⟨i, hstep⟩ := hmove
      refine ⟨hstep.inv hinv, fun j ↦ ?_⟩
      rcases hstep.cell hinv with heq | hcell
      · rw [heq]
        exact hlost j
      · exact hcell.not_lost (hlost j)

/-- A call that took effect does so for the rest of the run. -/
theorem Run.committed (hinv : Inv calls base s) (hrun : Run calls s s')
    (hi : (s.cell.phase i).Committed) : (s'.cell.phase i).Committed := by
  have hboth : Inv calls base s' ∧ (s'.cell.phase i).Committed := by
    induction hrun with
    | refl => exact ⟨hinv, hi⟩
    | tail _ hmove ih =>
        obtain ⟨hmid, hcommitted⟩ := ih
        obtain ⟨j, hstep⟩ := hmove
        refine ⟨hstep.inv hmid, ?_⟩
        rcases hstep.cell hmid with heq | hcell
        · rw [heq]
          exact hcommitted
        · exact hcell.committed hcommitted
  exact hboth.2

/-- **The identity store is a durable serial object.**  In every state that concurrent calls can
reach:

* there is one order of the calls that returned `Ok`, of those that have published and are about to
  return, and of none else, in which their effects lead to the published snapshot;
* a step of a call that changes snapshot or file is one of a call that never returns `Err`;
* when no call is in progress, only the calls that returned `Ok` are in the order, and opening the
  file gives the published snapshot;
* whenever the daemon stops, the file can be opened, and gives the state after all calls that had
  returned `Ok`, after those that had published and released the lock, and after at most the one
  call that has the lock. -/
theorem durable_serial {file : Option Json} (hload : FileStore.load file = some base)
    (hrun : Run calls (Sys.start file base) s) :
    (∃ order, SerialOrder calls s base order s.cell.snap ∧
      ∀ e ∈ order, Returned s e ∨ Leaving s e ∨ Holding s e) ∧
    (∀ i mid mid', Run calls (Sys.start file base) mid → Step calls i mid mid' →
      Run calls mid' s → mid'.cell.snap ≠ mid.cell.snap ∨ mid'.cell.disk ≠ mid.cell.disk →
      ∀ e, s.cell.phase i ≠ .err e) ∧
    ((∀ i, ¬ (s.cell.phase i).InProgress) →
      (∃ order, SerialOrder calls s base order s.cell.snap ∧ ∀ e ∈ order, Returned s e) ∧
      (FileStore.openFile s.cell.disk).map FileStore.snap = some s.cell.snap) ∧
    (∃ s', Restart s s') ∧
    ∀ s', Restart s s' → ∃ order, SerialOrder calls s base order s'.cell.snap ∧
      ∀ e ∈ order, Returned s e ∨ Leaving s e ∨ Holding s e := by
  obtain ⟨hinv, hlost⟩ := Run.not_lost hload hrun
  refine ⟨⟨_, hinv.serialOrder, fun e he ↦ hinv.accounted hlost he⟩, ?_, ?_, ?_, ?_⟩
  · intro i mid mid' hmid hstep hrest hne e herr
    have hmidinv := (Run.not_lost hload hmid).1
    have hcommitted : (mid'.cell.phase i).Committed := by
      rcases hstep.cell hmidinv with heq | hcell
      · rw [heq] at hne
        exact absurd hne (by simp)
      · exact hcell.committed_of_ne hne
    have hlast := Run.committed (hstep.inv hmidinv) hrest hcommitted
    rw [herr] at hlast
    exact hlast
  · intro hrest
    refine ⟨⟨_, hinv.serialOrder, fun e he ↦ ?_⟩, ?_⟩
    · rcases hinv.cell.phase_of_mem he with hphase | hphase | hphase | hphase
      · exact absurd (by rw [hphase]; trivial) (hrest e.call)
      · exact absurd (by rw [hphase]; trivial) (hrest e.call)
      · exact hphase
      · exact absurd hphase (hlost e.call)
    · have hdisk : FileStore.load s.cell.disk = some s.cell.snap := hinv.cell.disk_of_rest hrest
      rw [FileStore.openFile, hdisk]
      rfl
  · obtain ⟨snap, hread, -⟩ := hinv.cell.durable
    exact ⟨_, .mk (.mk hread)⟩
  · rintro s' ⟨⟨hread⟩⟩
    obtain ⟨snap, hread', hreplays, honce, hsubmits⟩ := hinv.cell.durable
    obtain rfl := Option.some.inj (hread.symm.trans hread')
    refine ⟨s.cell.log ++ s.cell.ahead, ⟨hreplays, honce, hsubmits, ?_⟩, fun e he ↦ ?_⟩
    · intro i change n hi
      exact List.mem_append_left _ (hinv.serialOrder.returned i change n hi)
    · rcases List.mem_append.mp he with he | he
      · exact hinv.accounted hlost he
      · rcases hinv.cell.disk_cases with ⟨hahead, -⟩ | ⟨i, c, next, r, hahead, hlock, -⟩
        · rw [hahead] at he
          cases he
        · rw [hahead] at he
          rw [List.mem_singleton.mp he]
          exact .inr (.inr hlock)

end Serial

/-! ### A prune on its way out -/

section Leaving

variable {ι : Type} [DecidableEq ι] {calls : ι → StoreCall} {i : ι}

/-- What a call does in its own time. -/
theorem Run.of_mutate {s : Sys ι} {cell : Cell ι}
    (h : Relation.ReflTransGen (DurableCell.Mutate storeSpec i) s.cell cell) :
    Run calls s { s with cell } := by
  induction h with
  | refl => exact .refl
  | tail _ hstep ih => exact ih.tail ⟨i, .mutate hstep⟩

/-- A revoked capability. -/
def revokedRecord : CapabilityRecord where
  keyId := Token.zeroToken.keyId
  secretHash := Token.zeroToken.secretHash
  subjectId := "user:admin"
  scopes := ["server.read"]
  label := "login-admin"
  createdAt := 1700000000
  expiresAt := none
  revoked := true
  lastUsed := none

/-- A snapshot with that capability only. -/
def revokedSnapshot : IdentitySnapshot := IdentitySnapshot.default.addCapability revokedRecord

/-- The state of a single prune that has removed it, released the lock, and not returned. -/
def leavingPrune : Sys Unit where
  cell := ((DurableCell.State.start revokedSnapshot (some revokedSnapshot.toJson) :
    Cell Unit).set () (.waiting (.prune 1700000000 86400))).done storeSpec ()
      (.prune 1700000000 86400) .default 1
  pending := ∅
  sweep := fun _ ↦ .before

theorem run_leavingPrune :
    Run (fun _ ↦ .pruneCapabilities 1700000000 86400)
      (Sys.start (some revokedSnapshot.toJson) revokedSnapshot) leavingPrune := by
  have hscan : Step (fun _ ↦ .pruneCapabilities 1700000000 86400) ()
      (Sys.start (some revokedSnapshot.toJson) revokedSnapshot) _ := .scan rfl rfl rfl
  refine (Relation.ReflTransGen.single ⟨(), hscan⟩).trans (Run.of_mutate (i := ()) ?_)
  exact DurableCell.Mutate.alone (DurableCell.State.set_phase_self () _ _) rfl rfl

/-- There the prune accounts for what is published, and for what a restart finds. -/
theorem durable_serial_leavingPrune :
    (∃ order, SerialOrder (fun _ ↦ .pruneCapabilities 1700000000 86400) leavingPrune
      revokedSnapshot order .default ∧
      ∀ e ∈ order, Returned leavingPrune e ∨ Leaving leavingPrune e ∨ Holding leavingPrune e) ∧
    ∃ s', Restart leavingPrune s' := by
  have hserial := durable_serial (FileStore.load_toJson revokedSnapshot) run_leavingPrune
  exact ⟨hserial.1, hserial.2.2.2.1⟩

/-- A restart finds the effect of a call that has not returned and does not have the lock
either. -/
theorem not_forall_crash :
    ¬ ∀ (calls : Unit → StoreCall) (file : Option Json) (base : IdentitySnapshot)
      (s s' : Sys Unit), FileStore.load file = some base → Run calls (Sys.start file base) s →
      Restart s s' → ∃ order, SerialOrder calls s base order s'.cell.snap ∧
        ∀ e ∈ order, Returned s e ∨ Holding s e := by
  intro h
  have hread : storeSpec.read leavingPrune.cell.disk = some .default :=
    FileStore.load_toJson .default
  obtain ⟨order, horder, honly⟩ :=
    h _ _ _ _ _ (FileStore.load_toJson revokedSnapshot) run_leavingPrune (.mk (.mk hread))
  -- nobody has returned and nobody holds the lock, so the order is empty
  have hnil : order = [] := by
    rw [List.eq_nil_iff_forall_not_mem]
    intro e he
    rcases honly e he with hret | hhold
    · have hphase : leavingPrune.cell.phase e.call = .released (.prune 1700000000 86400) 1 :=
        DurableCell.State.set_phase_self () _ _
      rw [Returned, hphase] at hret
      cases hret
    · cases hhold
  have hsame : IdentitySnapshot.default = revokedSnapshot := horder.replays.eq_of_nil hnil
  have hlookup := congrArg (fun s ↦ (s.lookupCapability Token.zeroToken.keyId).isSome) hsame
  revert hlookup
  decide

end Leaving

end Concurrent

end Vaiexia.Auth
