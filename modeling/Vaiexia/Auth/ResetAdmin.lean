import Vaiexia.Auth.Bootstrap

/-!
# Resetting the administrator

`reset_admin` and the part of `start` that opens the identity store, from
`crates/vaiexia-server/src/lib.rs`.  `reset_admin` edits the JSON document of the identity file: it
empties the accounts and leaves the capabilities.  The order of the members of an object is not
modelled.

`recovers_iff` says for which stores a reset followed by a start lets a new administrator be
claimed: for those without capabilities, since a store that has any is not empty.
-/

namespace Vaiexia.Auth

open Vaiexia.Lib

/-- `Map::insert` on the members of an object. -/
def insertMember (key : String) (v : Json) (members : List (String × Json)) :
    List (String × Json) :=
  members.filter (fun m ↦ m.1 != key) ++ [(key, v)]

/-- What `reset_admin` makes of the identity document. -/
def clearAccounts : Json → Json
  | .obj members => .obj (insertMember "accounts" (.obj []) members)
  | doc => doc

/-- `identity.json` and `bootstrap.code`. -/
structure StateDir where
  identity : Option Json
  code : Option String

/-- `reset_admin`, without reading the configuration.  `fault` is the error of reading or replacing
an identity file that exists. -/
def resetAdmin (fault : Option String) (draw : Draw) (dir : StateDir) :
    StateDir × Except String Unit :=
  match dir.identity with
  | none => ({ dir with code := (BootstrapState.begin true draw dir.code).2 }, .ok ())
  | some doc =>
      match fault with
      | some e => (dir, .error e)
      | none =>
          ({ identity := some (clearAccounts doc)
             code := (BootstrapState.begin true draw dir.code).2 }, .ok ())

/-- The part of `start` that opens the identity store. -/
def start (draw : Draw) (dir : StateDir) : Option Session :=
  (FileStore.openFile dir.identity).map fun store ↦ .begin store draw dir.code

theorem unique_insertMember_self (key : String) (v : Json) (members : List (String × Json)) :
    Serde.unique (insertMember key v members) key = some v := by
  have hnil : (members.filter fun m ↦ m.1 == key && m.1 != key) = [] := by
    simp [List.filter_eq_nil_iff]
  simp [Serde.unique, insertMember, List.filter_filter, hnil]

theorem unique_insertMember_of_ne {key key' : String} (h : key' ≠ key) (v : Json)
    (members : List (String × Json)) :
    Serde.unique (insertMember key v members) key' = Serde.unique members key' := by
  have hfilter : (members.filter fun m ↦ m.1 == key' && m.1 != key)
      = members.filter fun m ↦ m.1 == key' := by
    refine List.filter_congr fun m _ ↦ ?_
    rcases eq_or_ne m.1 key' with hm | hm <;> simp [hm, h]
  simp [Serde.unique, insertMember, List.filter_filter, hfilter, h.symm]

/-- **A document that opens** still does when it is cleared, and has lost its accounts, and nothing
else. -/
theorem load_clearAccounts_of_load {members : List (String × Json)} {s : IdentitySnapshot}
    (h : FileStore.load (some (.obj members)) = some s) :
    FileStore.load (some (clearAccounts (.obj members))) = some { s with accounts := ∅ } := by
  have haccs : Serde.map AccountRecord.fromJson (.obj []) = some ∅ := rfl
  have hcaps : ("capabilities" : String) ≠ "accounts" := by decide
  simp only [FileStore.load, IdentitySnapshot.fromJson, Serde.fields, Option.bind_eq_bind,
    Option.bind_some, Option.bind_eq_some_iff] at h
  obtain ⟨capabilities, hcapabilities, accounts, -, hs⟩ := h
  obtain rfl := Option.some.inj hs
  rw [Serde.required] at hcapabilities
  simp [FileStore.load, IdentitySnapshot.fromJson, clearAccounts, Serde.fields, Serde.required,
    unique_insertMember_self, unique_insertMember_of_ne hcaps, hcapabilities, haccs]

/-- The document of a snapshot loses its accounts. -/
@[simp] theorem load_clearAccounts (s : IdentitySnapshot) :
    FileStore.load (some (clearAccounts s.toJson)) = some { s with accounts := ∅ } :=
  load_clearAccounts_of_load (FileStore.load_toJson s)

/-- The claim comes within the TTL of a code drawn at `now`, and nothing fails. -/
structure ClaimEnv.Undisturbed (env : ClaimEnv) (now : UInt64) (p : ClaimParams) : Prop where
  inTime : env.checkedAt.toNat - now.toNat < defaultTtlSecs.toNat
  hashed : ∃ phc, env.hashPassword p.password = .ok phc
  account : env.accountFault = none
  capability : env.capabilityFault = none

/-- After a reset and a start without errors the bootstrap is open, and a claim with the code in
the file succeeds. -/
def Recovers (X : TokenCrypto) (identity : Option Json) : Prop :=
  ∀ (code : Option String) (fault : Option String) (resetDraw startDraw : Draw) (dir : StateDir),
    resetAdmin fault resetDraw ⟨identity, code⟩ = (dir, .ok ()) →
    resetDraw.failed = none → startDraw.failed = none →
    ∃ s, start startDraw dir = some s ∧ (∃ w, s.state = .active w) ∧
      ∀ (env : ClaimEnv) (p : ClaimParams), s.codeFile = some p.code →
        env.Undisturbed startDraw.now p → ∃ s' result, s.claim X env p = (s', .ok result)

/-- What a store holds of which `content` was written, after a reset. -/
def withoutAccounts (content : Option IdentitySnapshot) : IdentitySnapshot :=
  match content with
  | none => .default
  | some s => { s with accounts := ∅ }

/-- **A reset** that completes leaves a file that opens, without accounts. -/
theorem openFile_resetAdmin {content : Option IdentitySnapshot} {fault code : Option String}
    {draw : Draw} {dir : StateDir}
    (h : resetAdmin fault draw ⟨content.map IdentitySnapshot.toJson, code⟩ = (dir, .ok ())) :
    ∃ store, FileStore.openFile dir.identity = some store ∧
      store.snap = withoutAccounts content := by
  cases content with
  | none =>
      obtain ⟨rfl, -⟩ := Prod.mk.inj h
      exact ⟨_, rfl, rfl⟩
  | some s =>
      cases fault with
      | some e =>
          obtain ⟨-, h⟩ := Prod.mk.inj h
          cases h
      | none =>
          obtain ⟨rfl, -⟩ := Prod.mk.inj h
          refine ⟨⟨some (clearAccounts s.toJson), { s with accounts := ∅ }, ∅⟩, ?_, rfl⟩
          change (FileStore.load (some (clearAccounts s.toJson))).map _ = _
          rw [load_clearAccounts, Option.map_some]

/-- A bootstrap that has just begun accepts the code that it wrote. -/
theorem Session.begin_claim (X : TokenCrypto) {store : FileStore} (hempty : store.isEmpty = true)
    {draw : Draw} (hwritten : draw.failed = none) {file : Option String} {env : ClaimEnv}
    {p : ClaimParams} (hcode : (Session.begin store draw file).codeFile = some p.code)
    (h : env.Undisturbed draw.now p) :
    ∃ s' result, (Session.begin store draw file).claim X env p = (s', .ok result) := by
  obtain ⟨phc, hhash⟩ := h.hashed
  have hbegin : BootstrapState.begin store.isEmpty draw file
      = (.active ⟨draw.code, 0, draw.now, defaultTtlSecs⟩, some draw.code.text) := by
    simp [BootstrapState.begin, writeCode, hempty, hwritten]
  have hstate : (Session.begin store draw file).state
      = .active ⟨draw.code, 0, draw.now, defaultTtlSecs⟩ := congrArg Prod.fst hbegin
  have hfile : (Session.begin store draw file).codeFile = some draw.code.text :=
    congrArg Prod.snd hbegin
  refine Session.claim_ok X hstate ?_ ?_ hhash h.account h.capability
  · have htime := h.inTime
    simp [Window.isExpired, UInt64.le_iff_toNat_le, htime]
  · exact (Option.some.inj (hfile.symm.trans hcode)).symm

/-- A reset that opens the bootstrap has left an empty store. -/
theorem Recovers.isEmpty {X : TokenCrypto} {content : Option IdentitySnapshot}
    (h : Recovers X (content.map IdentitySnapshot.toJson)) :
    (withoutAccounts content).isEmpty = true := by
  obtain ⟨dir, hreset⟩ : ∃ dir, resetAdmin none (zeroDraw 1700000000)
      ⟨content.map IdentitySnapshot.toJson, none⟩ = (dir, .ok ()) := by
    cases content with
    | none => exact ⟨_, rfl⟩
    | some s => exact ⟨_, rfl⟩
  obtain ⟨store, hopen, hstore⟩ := openFile_resetAdmin hreset
  obtain ⟨s, hstart, ⟨w, hactive⟩, -⟩ :=
    h none none (zeroDraw 1700000000) (zeroDraw 1700000000) dir hreset rfl rfl
  rw [start, hopen, Option.map_some] at hstart
  obtain rfl := Option.some.inj hstart
  rw [← hstore]
  by_contra hne
  rw [Session.begin, BootstrapState.begin,
    if_pos (by simpa [FileStore.isEmpty] using hne)] at hactive
  cases hactive

/-- **A reset lets an administrator be claimed** exactly if no capability is left in the store. -/
theorem recovers_iff (X : TokenCrypto) (content : Option IdentitySnapshot) :
    Recovers X (content.map IdentitySnapshot.toJson) ↔
      ∀ s ∈ content, s.capabilities.isEmpty = true := by
  have hsnap : (withoutAccounts content).isEmpty = true ↔
      ∀ s ∈ content, s.capabilities.isEmpty = true := by
    cases content with
    | none => simp [withoutAccounts, IdentitySnapshot.isEmpty, IdentitySnapshot.default]
    | some s => simp [withoutAccounts, IdentitySnapshot.isEmpty]
  rw [← hsnap]
  constructor
  · exact Recovers.isEmpty
  · intro hempty code fault resetDraw startDraw dir hreset hresetDraw hstartDraw
    obtain ⟨store, hopen, hstore⟩ := openFile_resetAdmin hreset
    have hisEmpty : store.isEmpty = true := by rw [FileStore.isEmpty, hstore, hempty]
    refine ⟨.begin store startDraw dir.code, ?_, ?_, ?_⟩
    · rw [start, hopen, Option.map_some]
    · rw [Session.begin, BootstrapState.begin, if_neg (by simp [hisEmpty])]
      exact ⟨_, rfl⟩
    · intro env p hcode henv
      exact Session.begin_claim X hisEmpty hstartDraw hcode henv

/-- What a first claim leaves: an account and a capability. -/
def claimedSnapshot : IdentitySnapshot :=
  (IdentitySnapshot.default.addAccount (adminAccount firstClaim
    "$argon2id$v=19$m=65536,t=3,p=1$AAAAAAAAAAAAAAAAAAAAAA$AAAA")).addCapability
      (adminCapability Token.sampleCrypto minuteLater firstClaim)

/-- After that a reset does not help. -/
theorem not_forall_recovers :
    ¬ ∀ content : Option IdentitySnapshot,
      Recovers Token.sampleCrypto (content.map IdentitySnapshot.toJson) := by
  intro h
  have hempty := Recovers.isEmpty (h (some claimedSnapshot))
  cases hempty

end Vaiexia.Auth
