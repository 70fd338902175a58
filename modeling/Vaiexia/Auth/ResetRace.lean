import Vaiexia.Auth.ResetAdmin
import Vaiexia.Auth.Revocation

/-!
# A reset beside a running daemon

`reset_admin` reads `identity.json`, and later replaces it by what it has read without the accounts.
The daemon takes no notice: it has opened the file before, and replaces it by its own snapshot
whenever a call persists, the minute's flush of `last_used` among them.

No call of the daemon reads the file, so that the daemon runs as if nothing had happened: with its
own file in place of what is on disk, it makes a run of its own (`World.Inv`).  What is on disk
after the reset is that file again once a call has persisted, and until then what the reset has put
there.  `reset_kept_iff` says in which runs neither update is lost.
-/

namespace Vaiexia.Auth

open Vaiexia.Lib

namespace Concurrent

/-! ## The daemon with another file -/

section Disk

variable {ι : Type} {calls : ι → StoreCall} {base : IdentitySnapshot} {i : ι} {s s' : Sys ι}

/-- The daemon with another file on disk. -/
def Sys.withDisk (disk : Option Json) (s : Sys ι) : Sys ι :=
  { s with cell := s.cell.withDisk disk }

/-- The step replaces the file. -/
def Persists (i : ι) (s s' : Sys ι) : Prop := DurableCell.Persists i s.cell s'.cell

/-- **A step does the same whatever is on disk**: it replaces the file by that of a snapshot, or
leaves it. -/
theorem Step.withDisk [DecidableEq ι] (hstep : Step calls i s s') (disk : Option Json) :
    (Persists i s s' ∧ (∃ next : IdentitySnapshot, s'.cell.disk = some next.toJson) ∧
      Step calls i (s.withDisk disk) s') ∨
    (¬ Persists i s s' ∧ s'.cell.disk = s.cell.disk ∧
      Step calls i (s.withDisk disk) (s'.withDisk disk)) := by
  cases hstep with
  | submit hi hcall => exact .inr ⟨DurableCell.not_persists hi (by simp), rfl, .submit hi hcall⟩
  | touch hi hcall hfree =>
      exact .inr ⟨DurableCell.not_persists hi (by simp), rfl, .touch hi hcall hfree⟩
  | takeNothing hi hcall hfree hempty =>
      exact .inr ⟨DurableCell.not_persists hi (by simp), rfl, .takeNothing hi hcall hfree hempty⟩
  | take hi hcall hfree hempty =>
      exact .inr ⟨DurableCell.not_persists hi (by simp), rfl, .take hi hcall hfree hempty⟩
  | scanNothing hi hcall hscan =>
      exact .inr ⟨DurableCell.not_persists hi (by simp), rfl, .scanNothing hi hcall hscan⟩
  | scan hi hcall hscan =>
      exact .inr ⟨DurableCell.not_persists hi (by simp), rfl, .scan hi hcall hscan⟩
  | mutate hmutate =>
      rcases hmutate.withDisk disk with ⟨hpersists, hnext, h⟩ | ⟨hquiet, hdisk, h⟩
      · exact .inl ⟨hpersists, hnext, .mutate h⟩
      · exact .inr ⟨hquiet, hdisk, .mutate h⟩
  | sweepStart hi hcall hbefore hfree htodo =>
      exact .inr ⟨DurableCell.not_persists_self, rfl, .sweepStart hi hcall hbefore hfree htodo⟩
  | sweepKey hsweep => exact .inr ⟨DurableCell.not_persists_self, rfl, .sweepKey hsweep⟩
  | sweepEnd hsweep => exact .inr ⟨DurableCell.not_persists_self, rfl, .sweepEnd hsweep⟩
  | «return» hi hswept =>
      exact .inr ⟨DurableCell.not_persists hi (by simp), rfl, .return hi hswept⟩
  | returnFailed hi => exact .inr ⟨DurableCell.not_persists hi (by simp), rfl, .returnFailed hi⟩

/-- An account in the file stays there. -/
theorem Step.account_keeps [DecidableEq ι] (hstep : Step calls i s s') (hinv : Inv calls base s)
    {name : String}
    (h : ∀ t, FileStore.load s.cell.disk = some t → (t.lookupAccount name).isSome)
    {t : IdentitySnapshot} (hload : FileStore.load s'.cell.disk = some t) :
    (t.lookupAccount name).isSome := by
  rcases hstep.cell hinv with heq | hcell
  · rw [heq] at hload
    exact h t hload
  · exact hcell.disk_keeps (P := fun t : IdentitySnapshot ↦ (t.lookupAccount name).isSome = true)
      hinv.cell
      (fun _ _ _ _ _ happly ↦ Change.apply_account happly) h hload

/-- A revocation that has returned is in effect in the file. -/
theorem Run.noLive_restart [DecidableEq ι] {file : Option Json} {k : String}
    (hload : FileStore.load file = some base) (hfresh : FreshKey calls base k)
    (hrun : Run calls (Sys.start file base) s) (hcall : calls i = .revokeCapability k)
    {change : Change} {n : Nat} (hok : s.cell.phase i = .ok change n) (hrestart : Restart s s') :
    NoLive k s'.cell.snap := by
  have hrun' : RunOrRestart calls (Sys.start file base) s :=
    Relation.ReflTransGen.mono (fun _ _ h ↦ .inl h) _ _ hrun
  obtain ⟨hinv, hdead⟩ := RunOrRestart.dead hload hfresh hrun' hcall (by rw [hok]; trivial)
  exact (hrestart.dead hinv hdead).revoked

end Disk

/-! ## The reset -/

/-- How far `reset_admin` has come, with the document that it read.  `overwritten` is no part of the
program: a call of the daemon has persisted since the file was replaced. -/
inductive Tool where
  | waiting
  | absent
  | read (doc : Json)
  | renamed (doc : Json) (overwritten : Bool)

namespace Tool

/-- A call of the daemon persists. -/
def overwrite : Tool → Tool
  | .renamed doc _ => .renamed doc true
  | t => t

/-- The file has been replaced, or there was none. -/
def Done : Tool → Prop
  | .absent | .renamed _ _ => True
  | _ => False

/-- What was read. -/
def doc : Tool → Option Json
  | .read doc | .renamed doc _ => some doc
  | _ => none

/-- The store that was found. -/
def found : Tool → Option IdentitySnapshot
  | .absent => some .default
  | .read doc | .renamed doc _ => FileStore.load (some doc)
  | .waiting => none

@[simp] theorem doc_overwrite (t : Tool) : t.overwrite.doc = t.doc := by cases t <;> rfl

end Tool

/-- The daemon and the reset. -/
structure World (ι : Type) where
  sys : Sys ι
  tool : Tool

/-- A daemon that was opened, before the reset. -/
def World.start {ι : Type} (file : Option Json) (base : IdentitySnapshot) : World ι where
  sys := Sys.start file base
  tool := .waiting

section Moves

variable {ι : Type} [DecidableEq ι] (calls : ι → StoreCall)

/-- A step of a call of the daemon, or an access of `reset_admin` to the file. -/
inductive Move : World ι → World ι → Prop
  | call {w : World ι} {i : ι} {s' : Sys ι} (hstep : Step calls i w.sys s')
      (hquiet : ¬ Persists i w.sys s') : Move w ⟨s', w.tool⟩
  | persist {w : World ι} {i : ι} {s' : Sys ι} (hstep : Step calls i w.sys s')
      (hpersists : Persists i w.sys s') : Move w ⟨s', w.tool.overwrite⟩
  | findNothing {w : World ι} (htool : w.tool = .waiting) (hfile : w.sys.cell.disk = none) :
      Move w ⟨w.sys, .absent⟩
  | read {w : World ι} {doc : Json} (htool : w.tool = .waiting)
      (hfile : w.sys.cell.disk = some doc) : Move w ⟨w.sys, .read doc⟩
  | rename {w : World ι} {doc : Json} (htool : w.tool = .read doc) :
      Move w ⟨w.sys.withDisk (some (clearAccounts doc)), .renamed doc false⟩

/-- Any number of these. -/
abbrev Moves : World ι → World ι → Prop := Relation.ReflTransGen (Move calls)

/-- With nothing in between, the accesses make of the file what `resetAdmin` makes of it. -/
theorem exists_moves_resetAdmin {w : World ι} (hwaiting : w.tool = .waiting) (draw : Draw)
    (code : Option String) : ∃ w', Moves calls w w' ∧ w'.tool.Done ∧
      w'.sys.cell.disk = (resetAdmin none draw ⟨w.sys.cell.disk, code⟩).1.identity := by
  cases hfile : w.sys.cell.disk with
  | none => exact ⟨_, .single (.findNothing hwaiting hfile), trivial, hfile⟩
  | some doc =>
      exact ⟨_, (Relation.ReflTransGen.single (.read hwaiting hfile)).tail (.rename rfl), trivial,
        rfl⟩

end Moves

/-! ## The invariant -/

section Invariant

variable {ι : Type} {calls : ι → StoreCall} {file : Option Json} {base : IdentitySnapshot}

/-- What is on disk, when the daemon believes its own file there. -/
def Tool.Disk (disk own : Option Json) : Tool → Prop
  | .renamed doc false => disk = some (clearAccounts doc)
  | _ => disk = own

/-- What was read can be opened, and the daemon still has its accounts. -/
structure Found (doc : Json) (own : Option Json) : Prop where
  members : ∃ members, doc = .obj members
  opens : ∃ before, FileStore.load (some doc) = some before ∧
    ∀ name, (before.lookupAccount name).isSome →
      ∀ t, FileStore.load own = some t → (t.lookupAccount name).isSome

/-- With its own file on disk, the daemon has made a run of its own. -/
structure World.Inv [DecidableEq ι] (calls : ι → StoreCall) (file : Option Json)
    (base : IdentitySnapshot) (w : World ι) (own : Option Json) : Prop where
  run : Run calls (Sys.start file base) (w.sys.withDisk own)
  members : ∀ doc ∈ own, ∃ members, doc = .obj members
  disk : w.tool.Disk w.sys.cell.disk own
  found : ∀ doc ∈ w.tool.doc, Found doc own

variable [DecidableEq ι] {w w' : World ι} {own : Option Json}

/-- **A move keeps the invariant.** -/
theorem Move.inv (hmove : Move calls w w') (hload : FileStore.load file = some base)
    (h : w.Inv calls file base own) : ∃ own', w'.Inv calls file base own' := by
  cases hmove with
  | @call i s' hstep hquiet =>
      rcases hstep.withDisk own with ⟨hpersists, -⟩ | ⟨-, hdisk, hown⟩
      · exact absurd hpersists hquiet
      · refine ⟨own, h.run.tail ⟨i, hown⟩, h.members, ?_, h.found⟩
        have hkeep := h.disk
        rw [← hdisk] at hkeep
        exact hkeep
  | @persist i s' hstep hpersists =>
      rcases hstep.withDisk own with ⟨-, ⟨next, hnext⟩, hown⟩ | ⟨hquiet, -⟩
      · -- the file of the daemon is on disk again
        refine ⟨s'.cell.disk, h.run.tail ⟨i, hown⟩, ?_, ?_, ?_⟩
        · intro doc hdoc
          rw [hnext] at hdoc
          exact ⟨_, (Option.some.inj hdoc).symm⟩
        · cases htool : w.tool <;> rfl
        · intro doc hdoc
          rw [Tool.doc_overwrite] at hdoc
          obtain ⟨hmembers, before, hbefore, haccounts⟩ := h.found doc hdoc
          refine ⟨hmembers, before, hbefore, fun name hname t ht ↦ ?_⟩
          exact hown.account_keeps (Run.not_lost hload h.run).1 (haccounts name hname) ht
      · exact absurd hpersists hquiet
  | findNothing htool hfile =>
      refine ⟨own, h.run, h.members, ?_, fun _ hdoc ↦ nomatch hdoc⟩
      have hkeep := h.disk
      rw [htool] at hkeep
      exact hkeep
  | @read doc htool hfile =>
      have hown : some doc = own := by
        have hkeep := h.disk
        rw [htool, hfile] at hkeep
        exact hkeep
      refine ⟨own, h.run, h.members, hfile.trans hown, fun doc' hdoc ↦ ?_⟩
      obtain rfl : doc = doc' := Option.some.inj hdoc
      obtain ⟨before, hbefore, -⟩ := (Run.not_lost hload h.run).1.cell.durable
      change FileStore.load own = some before at hbefore
      refine ⟨h.members doc hown.symm, before, hown ▸ hbefore, fun name hname t ht ↦ ?_⟩
      obtain rfl := Option.some.inj (hbefore.symm.trans ht)
      exact hname
  | @rename doc htool =>
      refine ⟨own, h.run, h.members, rfl, fun doc' hdoc ↦ h.found doc' ?_⟩
      rw [htool]
      exact hdoc

/-- **And so do any number.** -/
theorem Moves.inv (hload : FileStore.load file = some base)
    (hmembers : ∀ doc ∈ file, ∃ members, doc = .obj members)
    (hmoves : Moves calls (World.start file base) w) :
    ∃ own, w.Inv calls file base own := by
  induction hmoves with
  | refl => exact ⟨file, .refl, hmembers, rfl, fun _ hdoc ↦ nomatch hdoc⟩
  | tail _ hmove ih =>
      obtain ⟨own, hinv⟩ := ih
      exact hmove.inv hload hinv

end Invariant

/-! ## What a restart finds -/

section Restart

variable {ι : Type} (calls : ι → StoreCall) (base before : IdentitySnapshot)

/-- Neither update is lost: after the restart no account is left of those that `reset_admin` found,
and every revocation of the daemon that has returned `Ok` is in effect.  (If the key id stands for
one capability.) -/
structure Kept (s : Sys ι) (after : IdentitySnapshot) : Prop where
  cleared : ∀ name, (before.lookupAccount name).isSome → after.lookupAccount name = none
  revoked : ∀ i k change n, FreshKey calls base k → calls i = .revokeCapability k →
    s.cell.phase i = .ok change n → NoLive k after

/-- The daemon does not interfere: it persists after the reset only if there was no account, and
otherwise every revocation that has returned was in the file that `reset_admin` read. -/
def Undisturbed (w : World ι) : Prop :=
  match w.tool with
  | .renamed _ true => ∀ name, before.lookupAccount name = none
  | .renamed _ false => ∀ i k change n, FreshKey calls base k → calls i = .revokeCapability k →
      w.sys.cell.phase i = .ok change n → NoLive k before
  | _ => True

end Restart

section Restart

variable {ι : Type} [DecidableEq ι] {calls : ι → StoreCall} {file : Option Json}
  {base before : IdentitySnapshot} {w : World ι} {own : Option Json} {s' : Sys ι}

/-- The daemon's own file is on disk: its revocations are in effect, and the accounts are back. -/
theorem World.Inv.restart_own (hinv : w.Inv calls file base own)
    (hload : FileStore.load file = some base) (hdisk : w.sys.cell.disk = own)
    (hrestart : Restart w.sys s') :
    (∀ i k change n, FreshKey calls base k → calls i = .revokeCapability k →
      w.sys.cell.phase i = .ok change n → NoLive k s'.cell.snap) ∧
    ∀ doc before, w.tool.doc = some doc → FileStore.load (some doc) = some before →
      ∀ name, (before.lookupAccount name).isSome → (s'.cell.snap.lookupAccount name).isSome := by
  subst hdisk
  refine ⟨fun i k change n hfresh hcall hok ↦ ?_, fun doc before hdoc hbefore name hname ↦ ?_⟩
  · exact Run.noLive_restart hload hfresh hinv.run hcall hok hrestart
  · obtain ⟨-, before', hbefore', haccounts⟩ := hinv.found doc hdoc
    obtain rfl := Option.some.inj (hbefore.symm.trans hbefore')
    cases hrestart with
    | mk hcell =>
        cases hcell with
        | mk hread => exact haccounts name hname _ hread

/-- What the reset has put there is on disk. -/
theorem World.Inv.restart_cleared {doc : Json} (hinv : w.Inv calls file base own)
    (hdoc : w.tool.doc = some doc) (hbefore : FileStore.load (some doc) = some before)
    (hdisk : w.sys.cell.disk = some (clearAccounts doc)) (hrestart : Restart w.sys s') :
    s'.cell.snap = { before with accounts := ∅ } := by
  obtain ⟨⟨members, rfl⟩, -⟩ := hinv.found doc hdoc
  cases hrestart with
  | mk hcell =>
      cases hcell with
      | mk hread =>
          change FileStore.load w.sys.cell.disk = some _ at hread
          rw [hdisk, load_clearAccounts_of_load hbefore] at hread
          exact (Option.some.inj hread).symm

/-- The daemon can be started again. -/
theorem World.Inv.exists_restart (hinv : w.Inv calls file base own)
    (hload : FileStore.load file = some base) (hdone : w.tool.Done) :
    ∃ s', Restart w.sys s' := by
  obtain ⟨snap, hread⟩ : ∃ snap, FileStore.load w.sys.cell.disk = some snap := by
    have hdisk := hinv.disk
    obtain ⟨t, ht, -⟩ := (Run.not_lost hload hinv.run).1.cell.durable
    change FileStore.load own = some t at ht
    cases htool : w.tool with
    | waiting | read =>
        rw [htool] at hdone
        exact hdone.elim
    | absent =>
        rw [htool] at hdisk
        exact ⟨t, (congrArg FileStore.load hdisk).trans ht⟩
    | renamed doc overwritten =>
        rw [htool] at hdisk
        cases overwritten with
        | true => exact ⟨t, (congrArg FileStore.load hdisk).trans ht⟩
        | false =>
            obtain ⟨⟨members, rfl⟩, before, hbefore, -⟩ := hinv.found doc (by rw [htool]; rfl)
            exact ⟨_, (congrArg FileStore.load hdisk).trans (load_clearAccounts_of_load hbefore)⟩
  exact ⟨_, .mk (.mk hread)⟩

/-- **A reset beside a running daemon.**  Whatever calls run, wherever writing fails, and however
their steps and the two accesses of `reset_admin` are interleaved: once it is done, the daemon can
be started again, and neither update is lost exactly if the daemon did not interfere. -/
theorem reset_kept_iff {content : Option (List (String × Json))}
    (hload : FileStore.load (content.map .obj) = some base)
    (hmoves : Moves calls (World.start (content.map .obj) base) w) (hdone : w.tool.Done) :
    (∃ s', Restart w.sys s') ∧
    ∃ before, w.tool.found = some before ∧ ∀ s', Restart w.sys s' →
      (Kept calls base before w.sys s'.cell.snap ↔ Undisturbed calls base before w) := by
  obtain ⟨own, hinv⟩ := hmoves.inv hload fun doc hdoc ↦ by
    obtain ⟨members, -, rfl⟩ := Option.map_eq_some_iff.mp hdoc
    exact ⟨members, rfl⟩
  refine ⟨hinv.exists_restart hload hdone, ?_⟩
  have hdisk := hinv.disk
  cases htool : w.tool with
  | waiting | read =>
      rw [htool] at hdone
      exact hdone.elim
  | absent =>
      rw [htool] at hdisk
      refine ⟨.default, rfl, fun s' hrestart ↦ ?_⟩
      rw [Undisturbed, htool]
      exact ⟨fun _ ↦ trivial, fun _ ↦ ⟨fun _ h ↦ (nomatch h),
        (hinv.restart_own hload hdisk hrestart).1⟩⟩
  | renamed doc overwritten =>
      rw [htool] at hdisk
      have hdoc : w.tool.doc = some doc := by rw [htool]; rfl
      obtain ⟨-, before, hbefore, -⟩ := hinv.found doc hdoc
      refine ⟨before, hbefore, fun s' hrestart ↦ ?_⟩
      rw [Undisturbed, htool]
      cases overwritten with
      | true =>
          obtain ⟨hrevoked, hback⟩ := hinv.restart_own hload hdisk hrestart
          constructor
          · -- an account that was found is back
            intro hkept name
            by_contra hname
            have hsome := Option.isSome_iff_ne_none.mpr hname
            have hthere := hback doc before hdoc hbefore name hsome
            rw [hkept.cleared name hsome] at hthere
            cases hthere
          · intro hnone
            refine ⟨fun name hname ↦ ?_, hrevoked⟩
            rw [hnone name] at hname
            cases hname
      | false =>
          have hafter := hinv.restart_cleared hdoc hbefore hdisk hrestart
          constructor
          · intro hkept i k change n hfresh hcall hok
            have hdead := hkept.revoked i k change n hfresh hcall hok
            rw [hafter] at hdead
            exact hdead
          · intro hrevoked
            refine ⟨fun name _ ↦ ?_, fun i k change n hfresh hcall hok ↦ ?_⟩
            · rw [hafter]
              rfl
            · rw [hafter]
              exact hrevoked i k change n hfresh hcall hok

end Restart

/-! ## A flush after the reset, and a reset in time -/

section Examples

variable {ι : Type} [DecidableEq ι] {calls : ι → StoreCall}

/-- A call that waits while the lock is free comes to replace the file. -/
theorem Moves.exists_persist {w : World ι} {i : ι} {change : Change}
    (hi : w.sys.cell.phase i = .waiting change) (hfree : w.sys.cell.lock = none)
    {next : IdentitySnapshot} {n : Nat}
    (happly : change.apply w.sys.cell.snap = .ok (next, n)) :
    ∃ s', Moves calls w ⟨s', w.tool.overwrite⟩ := by
  let locked : Sys ι :=
    { w.sys with cell := { w.sys.cell.set i (.locked change) with lock := some i } }
  let computed : Sys ι := { locked with cell := locked.cell.set i (.computed change next n) }
  have hlocked : locked.cell.phase i = .locked change := DurableCell.State.set_phase_self i _ _
  have hcomputed : computed.cell.phase i = .computed change next n :=
    DurableCell.State.set_phase_self i _ _
  have h₁ : Move calls w ⟨locked, w.tool⟩ :=
    .call (.mutate (.acquire hi hfree)) (DurableCell.not_persists hi (by simp))
  have h₂ : Move calls ⟨locked, w.tool⟩ ⟨computed, w.tool⟩ :=
    .call (.mutate (.compute hlocked happly)) (DurableCell.not_persists hlocked (by simp))
  have h₃ : Move calls ⟨computed, w.tool⟩ _ :=
    .persist (.mutate (.persist hcomputed))
      ⟨_, _, _, hcomputed, DurableCell.State.set_phase_self i _ _⟩
  exact ⟨_, ((Relation.ReflTransGen.single h₁).tail h₂).tail h₃⟩

/-- While the reset waits, the daemon runs. -/
theorem Run.moves {s s' : Sys ι} (hrun : Run calls s s') :
    Moves calls ⟨s, .waiting⟩ ⟨s', .waiting⟩ := by
  induction hrun with
  | refl => exact .refl
  | tail _ hmove ih =>
      obtain ⟨i, hstep⟩ := hmove
      rcases hstep.withDisk none with ⟨hpersists, -⟩ | ⟨hquiet, -⟩
      · exact ih.tail (.persist hstep hpersists)
      · exact ih.tail (.call hstep hquiet)

/-- A store with an account and a live capability. -/
def inUseSnapshot : IdentitySnapshot :=
  liveSnapshot.addAccount (adminAccount firstClaim
    "$argon2id$v=19$m=65536,t=3,p=1$AAAAAAAAAAAAAAAAAAAAAA$AAAA")

/-- One request with the capability, and the persister. -/
def requestAndFlush : Bool → StoreCall
  | false => .touchLastUsed Token.zeroToken.keyId 1700000000
  | true => .flushLastUsed

/-- After the reset the persister flushes what the request has touched. -/
theorem exists_flush_after_reset : ∃ s,
    Moves requestAndFlush (World.start (some inUseSnapshot.toJson) inUseSnapshot)
      ⟨s, .renamed inUseSnapshot.toJson true⟩ := by
  let start : Sys Bool := Sys.start (some inUseSnapshot.toJson) inUseSnapshot
  let cleared : Sys Bool := start.withDisk (some (clearAccounts inUseSnapshot.toJson))
  have hread : Move requestAndFlush ⟨start, .waiting⟩ ⟨start, .read inUseSnapshot.toJson⟩ :=
    .read rfl rfl
  have hrename : Move requestAndFlush ⟨start, .read inUseSnapshot.toJson⟩
      ⟨cleared, .renamed inUseSnapshot.toJson false⟩ := .rename rfl
  have hfree : cleared.PendingFree := fun _ _ h ↦ nomatch h
  -- the request buffers its touch, and the flush takes the buffer
  let touched : Sys Bool :=
    { cleared with
      cell := cleared.cell.skip false (.applyTouches ∅) 0
      pending := cleared.pending.insert Token.zeroToken.keyId 1700000000 }
  let taken : Sys Bool :=
    { touched with
      cell := touched.cell.set true (.waiting (.applyTouches touched.pending))
      pending := ∅ }
  have hidle : cleared.cell.phase false = .idle := rfl
  have hidle' : touched.cell.phase true = .idle := rfl
  have htouch : Move requestAndFlush ⟨cleared, .renamed inUseSnapshot.toJson false⟩
      ⟨touched, .renamed inUseSnapshot.toJson false⟩ :=
    .call (.touch rfl rfl hfree) (DurableCell.not_persists hidle (by simp))
  have htake : Move requestAndFlush ⟨touched, .renamed inUseSnapshot.toJson false⟩
      ⟨taken, .renamed inUseSnapshot.toJson false⟩ :=
    .call (.take rfl rfl hfree rfl) (DurableCell.not_persists hidle' (by simp))
  obtain ⟨s, hpersist⟩ := @Moves.exists_persist Bool _ requestAndFlush
    ⟨taken, .renamed inUseSnapshot.toJson false⟩ true _ (DurableCell.State.set_phase_self true _ _)
    rfl _ _ rfl
  exact ⟨s, ((((Relation.ReflTransGen.single hread).tail hrename).tail htouch).tail htake).trans
    hpersist⟩

/-- And with that the account is back. -/
theorem not_forall_reset_kept :
    ¬ ∀ (calls : Bool → StoreCall) (content : Option (List (String × Json)))
      (base before : IdentitySnapshot) (w : World Bool) (s' : Sys Bool),
      FileStore.load (content.map .obj) = some base →
      Moves calls (World.start (content.map .obj) base) w → w.tool.found = some before →
      w.tool.Done → Restart w.sys s' → Kept calls base before w.sys s'.cell.snap := by
  intro h
  obtain ⟨s, hmoves⟩ := exists_flush_after_reset
  obtain ⟨members, hmembers⟩ : ∃ members, inUseSnapshot.toJson = .obj members := ⟨_, rfl⟩
  have hload : FileStore.load (some inUseSnapshot.toJson) = some inUseSnapshot :=
    FileStore.load_toJson inUseSnapshot
  obtain ⟨own, hinv⟩ := hmoves.inv hload fun doc hdoc ↦
    ⟨members, (Option.some.inj hdoc).symm.trans hmembers⟩
  obtain ⟨s', hrestart⟩ := hinv.exists_restart hload trivial
  have hback := (hinv.restart_own hload hinv.disk hrestart).2 _ _ rfl hload "admin" rfl
  have hkept : Kept requestAndFlush inUseSnapshot inUseSnapshot s s'.cell.snap := by
    rw [hmembers] at hload hmoves
    exact h requestAndFlush (some members) _ _ _ s' hload hmoves hload trivial hrestart
  rw [hkept.cleared "admin" rfl] at hback
  cases hback

/-- A revocation that is alone goes through, and replaces the file. -/
theorem exists_run_revokeCapability {k : String} {base next : IdentitySnapshot}
    (hrevoke : base.revokeCapability k = .ok next) :
    ∃ s : Sys Unit, Run (fun _ ↦ .revokeCapability k) (Sys.start (some base.toJson) base) s ∧
      s.cell.disk = some next.toJson := by
  let start : Sys Unit := Sys.start (some base.toJson) base
  let waiting : Cell Unit := start.cell.set () (.waiting (.revokeCapability k))
  let done : Cell Unit := waiting.done storeSpec () (.revokeCapability k) next 0
  have happly : storeSpec.apply (.revokeCapability k) waiting.snap = .ok (next, 0) := by
    change (base.revokeCapability k).map _ = _
    rw [hrevoke]
    rfl
  have hsubmit : Step (fun _ ↦ .revokeCapability k) () start { start with cell := waiting } :=
    .submit rfl rfl
  have hdone : Run (fun _ ↦ .revokeCapability k) { start with cell := waiting }
      { start with cell := done } :=
    Run.of_mutate (i := ())
      (DurableCell.Mutate.alone (DurableCell.State.set_phase_self () _ _) rfl happly)
  have hreturn : Step (fun _ ↦ .revokeCapability k) () { start with cell := done }
      { start with cell := done.set () (.ok (.revokeCapability k) 0) } :=
    .return (DurableCell.State.set_phase_self () _ _) fun _ _ h ↦ nomatch h
  exact ⟨_, ((Relation.ReflTransGen.single ⟨(), hsubmit⟩).trans hdone).tail ⟨(), hreturn⟩, rfl⟩

/-- A revocation has returned when the reset reads the file, and nothing persists after that: the
account is gone and the capability is revoked. -/
theorem reset_kept_iff_inTime : ∃ (w : World Unit) (before : IdentitySnapshot),
    w.tool.found = some before ∧ (before.lookupAccount "admin").isSome ∧
    ∀ s', Restart w.sys s' → Kept (fun _ ↦ .revokeCapability Token.zeroToken.keyId) inUseSnapshot
      before w.sys s'.cell.snap := by
  obtain ⟨next, hrevoke⟩ : ∃ next,
      inUseSnapshot.revokeCapability Token.zeroToken.keyId = .ok next := ⟨_, rfl⟩
  have hname : (next.lookupAccount "admin").isSome := by
    have happly : (Change.revokeCapability Token.zeroToken.keyId).apply inUseSnapshot
        = .ok (next, 0) := by
      rw [Change.apply, hrevoke]
      rfl
    exact Change.apply_account happly rfl
  obtain ⟨s, hrun, hdisk⟩ := exists_run_revokeCapability hrevoke
  have hmoves := (hrun.moves.tail (.read rfl hdisk)).tail (.rename rfl)
  obtain ⟨members, hmembers⟩ : ∃ members, inUseSnapshot.toJson = .obj members := ⟨_, rfl⟩
  have hload : FileStore.load (some inUseSnapshot.toJson) = some inUseSnapshot :=
    FileStore.load_toJson inUseSnapshot
  rw [hmembers] at hload hmoves
  obtain ⟨-, before, hfound, hkept⟩ :=
    @reset_kept_iff Unit _ _ inUseSnapshot _ (some members) hload hmoves trivial
  obtain rfl := Option.some.inj ((FileStore.load_toJson next).symm.trans hfound)
  refine ⟨_, next, hfound, hname, fun s' hrestart ↦ (hkept s' hrestart).mpr ?_⟩
  intro i k change n hfresh hcall hok
  obtain rfl : Token.zeroToken.keyId = k := StoreCall.revokeCapability.inj hcall
  exact fun rec hrec ↦ IdentitySnapshot.revoked_revokeCapability hrevoke hrec

end Examples

end Concurrent

end Vaiexia.Auth
