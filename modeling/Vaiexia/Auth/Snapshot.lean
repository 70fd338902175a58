import Vaiexia.Lib.Hex
import Vaiexia.Lib.Serde

/-!
# The identity snapshot

The records of `crates/vaiexia-server/src/auth/store.rs`, their JSON form, and what each mutator
of the store does to a snapshot.  The mutators are pure here; `Vaiexia/Auth/Store.lean` persists
and publishes their results, and `Vaiexia/Auth/Concurrent.lean` lets them run concurrently.

Nothing but `add_capability` brings a record into a snapshot, and no mutator changes anything of a
record but `revoked`, which it only sets, and `last_used`: the record `Ages`.
`Change.apply_capability` says this once for all of them.
-/

namespace Vaiexia.Auth

open Vaiexia.Lib

/-! ## Records -/

/-- `CapabilityRecord`. -/
structure CapabilityRecord where
  keyId : String
  secretHash : Bytes32
  subjectId : String
  scopes : List String
  label : String
  createdAt : UInt64
  expiresAt : Option UInt64
  revoked : Bool
  lastUsed : Option UInt64
deriving DecidableEq

/-- `AccountRecord`. -/
structure AccountRecord where
  name : String
  passwordPhc : String
  subjectId : String
  scopes : List String
deriving DecidableEq

/-- `IdentitySnapshot`. -/
structure IdentitySnapshot where
  capabilities : HashMap String CapabilityRecord
  accounts : HashMap String AccountRecord

/-- `StoreError`. -/
inductive StoreError where
  | io (text : String)
  | json (text : String)
  | notFound (keyId : String)
deriving DecidableEq

/-- The `Display` of `StoreError`. -/
def StoreError.toString : StoreError → String
  | .io text => s!"io error: {text}"
  | .json text => s!"serialize error: {text}"
  | .notFound keyId => s!"key not found: {keyId}"

namespace IdentitySnapshot

/-- `IdentitySnapshot::default`. -/
def default : IdentitySnapshot where
  capabilities := ∅
  accounts := ∅

/-- `IdentitySnapshot::lookup_capability`. -/
def lookupCapability (s : IdentitySnapshot) (keyId : String) : Option CapabilityRecord :=
  s.capabilities.lookup keyId

/-- `IdentitySnapshot::lookup_account`. -/
def lookupAccount (s : IdentitySnapshot) (name : String) : Option AccountRecord :=
  s.accounts.lookup name

/-- The test of `FileStore::is_empty`. -/
def isEmpty (s : IdentitySnapshot) : Bool := s.capabilities.isEmpty && s.accounts.isEmpty

end IdentitySnapshot

/-! ## The JSON form -/

/-- `hex_bytes::serialize`. -/
def hexBytes (bytes : Bytes32) : Json := .str (String.ofList (Hex.ofBytes bytes.bytes))

/-- `hex_bytes::deserialize`. -/
def hexBytesFromJson : Json → Option Bytes32
  | .str s =>
      if Utf8.byteLen s.toList ≠ 64 then none
      else
        (Hex.toBytes s.toList).bind fun bytes ↦
          if h : bytes.length = 32 then some ⟨bytes, h⟩ else none
  | _ => none

/-- A list of strings. -/
def strings (texts : List String) : Json := .arr (texts.map .str)

/-- The `Serialize` of `CapabilityRecord`. -/
def CapabilityRecord.toJson (rec : CapabilityRecord) : Json :=
  .obj [("key_id", .str rec.keyId),
    ("secret_hash", hexBytes rec.secretHash),
    ("subject_id", .str rec.subjectId),
    ("scopes", strings rec.scopes),
    ("label", .str rec.label),
    ("created_at", .uint rec.createdAt.toNat),
    ("expires_at", Serde.ofNullable (fun t ↦ .uint t.toNat) rec.expiresAt),
    ("revoked", .bool rec.revoked),
    ("last_used", Serde.ofNullable (fun t ↦ .uint t.toNat) rec.lastUsed)]

/-- The `Deserialize` of `CapabilityRecord`. -/
def CapabilityRecord.fromJson (doc : Json) : Option CapabilityRecord := do
  let members ← Serde.fields ["key_id", "secret_hash", "subject_id", "scopes", "label",
    "created_at", "expires_at", "revoked", "last_used"] doc
  let keyId ← Serde.required Json.asStr members "key_id"
  let secretHash ← Serde.required hexBytesFromJson members "secret_hash"
  let subjectId ← Serde.required Json.asStr members "subject_id"
  let scopes ← Serde.required (Serde.list Json.asStr) members "scopes"
  let label ← Serde.required Json.asStr members "label"
  let createdAt ← Serde.required Serde.uint64 members "created_at"
  let expiresAt ← Serde.optional Serde.uint64 members "expires_at"
  let revoked ← Serde.required Serde.bool members "revoked"
  let lastUsed ← Serde.optional Serde.uint64 members "last_used"
  some { keyId, secretHash, subjectId, scopes, label, createdAt, expiresAt, revoked, lastUsed }

/-- The `Serialize` of `AccountRecord`. -/
def AccountRecord.toJson (rec : AccountRecord) : Json :=
  .obj [("name", .str rec.name),
    ("password_phc", .str rec.passwordPhc),
    ("subject_id", .str rec.subjectId),
    ("scopes", strings rec.scopes)]

/-- The `Deserialize` of `AccountRecord`. -/
def AccountRecord.fromJson (doc : Json) : Option AccountRecord := do
  let members ← Serde.fields ["name", "password_phc", "subject_id", "scopes"] doc
  let name ← Serde.required Json.asStr members "name"
  let passwordPhc ← Serde.required Json.asStr members "password_phc"
  let subjectId ← Serde.required Json.asStr members "subject_id"
  let scopes ← Serde.required (Serde.list Json.asStr) members "scopes"
  some { name, passwordPhc, subjectId, scopes }

namespace IdentitySnapshot

/-- The `Serialize` of `IdentitySnapshot`. -/
def toJson (s : IdentitySnapshot) : Json :=
  .obj [("capabilities", Serde.ofMap CapabilityRecord.toJson s.capabilities),
    ("accounts", Serde.ofMap AccountRecord.toJson s.accounts)]

/-- The `Deserialize` of `IdentitySnapshot`. -/
def fromJson (doc : Json) : Option IdentitySnapshot := do
  let members ← Serde.fields ["capabilities", "accounts"] doc
  let capabilities ← Serde.required (Serde.map CapabilityRecord.fromJson) members "capabilities"
  let accounts ← Serde.required (Serde.map AccountRecord.fromJson) members "accounts"
  some { capabilities, accounts }

end IdentitySnapshot

@[simp] theorem hexBytesFromJson_hexBytes (bytes : Bytes32) :
    hexBytesFromJson (hexBytes bytes) = some bytes := by
  have hlen : Utf8.byteLen (Hex.ofBytes bytes.bytes) = 64 := by
    have hplain : ∀ c ∈ Hex.ofBytes bytes.bytes, c.utf8Size = 1 := fun c hc ↦
      (Hex.plain_of_mem_digits (Hex.mem_digits_of_mem_ofBytes hc)).2.1
    rw [Utf8.byteLen_eq_length hplain, Hex.length_ofBytes, bytes.length_eq]
  simp [hexBytesFromJson, hexBytes, hlen, bytes.length_eq]

@[simp] theorem list_strings (texts : List String) :
    Serde.list Json.asStr (strings texts) = some texts := by
  apply Serde.list_map
  intro text
  rfl

@[simp] theorem nullable_time (t : Option UInt64) :
    Serde.nullable Serde.uint64 (Serde.ofNullable (fun t ↦ .uint t.toNat) t) = some t :=
  Serde.nullable_ofNullable (fun _ ↦ Serde.uint64_uint _) (fun _ h ↦ nomatch h) t

/-- A capability record reads back. -/
theorem CapabilityRecord.fromJson_toJson (rec : CapabilityRecord) :
    CapabilityRecord.fromJson rec.toJson = some rec := by
  simp [CapabilityRecord.fromJson, CapabilityRecord.toJson, Serde.fields, Serde.required,
    Serde.unique, Serde.optional, Serde.bool, Json.asStr]

/-- An account record reads back. -/
theorem AccountRecord.fromJson_toJson (rec : AccountRecord) :
    AccountRecord.fromJson rec.toJson = some rec := by
  simp [AccountRecord.fromJson, AccountRecord.toJson, Serde.fields, Serde.required,
    Serde.unique, Json.asStr]

/-- **A snapshot reads back.** -/
@[simp] theorem IdentitySnapshot.fromJson_toJson (s : IdentitySnapshot) :
    IdentitySnapshot.fromJson s.toJson = some s := by
  have hcaps := Serde.map_ofMap CapabilityRecord.fromJson_toJson s.capabilities
  have haccs := Serde.map_ofMap AccountRecord.fromJson_toJson s.accounts
  simp [IdentitySnapshot.fromJson, IdentitySnapshot.toJson, Serde.fields, Serde.required,
    Serde.unique, hcaps, haccs]

/-! ## What the mutators do -/

/-- `u64::saturating_add`. -/
def saturatingAdd (a b : UInt64) : UInt64 := UInt64.ofNat (min (a.toNat + b.toNat) (2 ^ 64 - 1))

/-- The records that `prune_capabilities` removes. -/
def removable (now grace : UInt64) (rec : CapabilityRecord) : Bool :=
  rec.revoked || rec.expiresAt.any fun e ↦ saturatingAdd e grace ≤ now

namespace IdentitySnapshot

/-- The closure of `add_capability`. -/
def addCapability (rec : CapabilityRecord) (s : IdentitySnapshot) : IdentitySnapshot :=
  { s with capabilities := s.capabilities.insert rec.keyId rec }

/-- The closure of `revoke_capability`. -/
def revokeCapability (keyId : String) (s : IdentitySnapshot) :
    Except StoreError IdentitySnapshot :=
  match s.capabilities.lookup keyId with
  | some rec =>
      .ok { s with capabilities := s.capabilities.insert keyId { rec with revoked := true } }
  | none => .error (.notFound keyId)

/-- The closure of `flush_last_used`, on the buffered times, with the number of records it
updates.  A key that is not there has been pruned already. -/
def applyTouches : List (Sigma fun _ : String ↦ UInt64) → IdentitySnapshot →
    IdentitySnapshot × Nat
  | [], s => (s, 0)
  | ⟨key, ts⟩ :: pending, s =>
      match s.capabilities.lookup key with
      | some rec =>
          let touched := s.capabilities.insert key { rec with lastUsed := some ts }
          let (s', updated) := applyTouches pending { s with capabilities := touched }
          (s', updated + 1)
      | none => applyTouches pending s

/-- The closure of `prune_capabilities`, with the number of records it removes. -/
def prune (now grace : UInt64) (s : IdentitySnapshot) : IdentitySnapshot × Nat :=
  let kept := s.capabilities.retain fun _ rec ↦ !removable now grace rec
  ({ s with capabilities := kept }, s.capabilities.len - kept.len)

/-- The closure of `add_account`. -/
def addAccount (rec : AccountRecord) (s : IdentitySnapshot) : IdentitySnapshot :=
  { s with accounts := s.accounts.insert rec.name rec }

end IdentitySnapshot

/-- The closures that the store hands to `mutate`. -/
inductive Change where
  | addCapability (rec : CapabilityRecord)
  | revokeCapability (keyId : String)
  | applyTouches (pending : HashMap String UInt64)
  | prune (now grace : UInt64)
  | addAccount (rec : AccountRecord)

/-- What a closure does, and the number it leaves for the caller to return. -/
def Change.apply : Change → IdentitySnapshot → Except StoreError (IdentitySnapshot × Nat)
  | .addCapability rec, s => .ok (s.addCapability rec, 0)
  | .revokeCapability keyId, s => (s.revokeCapability keyId).map fun s' ↦ (s', 0)
  | .applyTouches pending, s => .ok (s.applyTouches pending.entries)
  | .prune now grace, s => .ok (s.prune now grace)
  | .addAccount rec, s => .ok (s.addAccount rec, 0)

/-! ## Records age -/

/-- The record is the same, but for a revocation and the time of its last use. -/
structure CapabilityRecord.Ages (rec rec' : CapabilityRecord) : Prop where
  same : { rec' with revoked := rec.revoked, lastUsed := rec.lastUsed } = rec
  revoked : rec.revoked = true → rec'.revoked = true

namespace CapabilityRecord.Ages

variable {rec rec' rec'' : CapabilityRecord}

theorem refl (rec : CapabilityRecord) : rec.Ages rec := ⟨rfl, id⟩

theorem trans (h : rec.Ages rec') (h' : rec'.Ages rec'') : rec.Ages rec'' where
  same := by
    have h₁ := h.same
    rw [← h'.same] at h₁
    exact h₁
  revoked := fun hr ↦ h'.revoked (h.revoked hr)

theorem revoke (rec : CapabilityRecord) : rec.Ages { rec with revoked := true } :=
  ⟨rfl, fun _ ↦ rfl⟩

theorem touch (rec : CapabilityRecord) (ts : UInt64) :
    rec.Ages { rec with lastUsed := some ts } := ⟨rfl, id⟩

/-- No record's scopes ever change. -/
theorem scopes_eq (h : rec.Ages rec') : rec'.scopes = rec.scopes := by
  rw [← h.same]

theorem keyId_eq (h : rec.Ages rec') : rec'.keyId = rec.keyId := by
  rw [← h.same]

theorem expiresAt_eq (h : rec.Ages rec') : rec'.expiresAt = rec.expiresAt := by
  rw [← h.same]

theorem secretHash_eq (h : rec.Ages rec') : rec'.secretHash = rec.secretHash := by
  rw [← h.same]

theorem subjectId_eq (h : rec.Ages rec') : rec'.subjectId = rec.subjectId := by
  rw [← h.same]

end CapabilityRecord.Ages

namespace IdentitySnapshot

variable {s s' : IdentitySnapshot} {k : String} {rec' : CapabilityRecord}

/-- Every capability of `s'` is one of `s`, aged. -/
def Aged (s s' : IdentitySnapshot) : Prop :=
  ∀ k rec', s'.lookupCapability k = some rec' →
    ∃ rec, s.lookupCapability k = some rec ∧ rec.Ages rec'

theorem Aged.refl (s : IdentitySnapshot) : s.Aged s := fun _ rec h ↦ ⟨rec, h, .refl rec⟩

theorem Aged.trans {s'' : IdentitySnapshot} (h : s.Aged s') (h' : s'.Aged s'') : s.Aged s'' := by
  intro k rec'' hk
  obtain ⟨rec', hk', hages'⟩ := h' k rec'' hk
  obtain ⟨rec, hk, hages⟩ := h k rec' hk'
  exact ⟨rec, hk, hages.trans hages'⟩

/-- Replacing one record by an aged one. -/
theorem aged_insert {key : String} {rec rec' : CapabilityRecord}
    (hkey : s.capabilities.lookup key = some rec) (hages : rec.Ages rec') :
    s.Aged { s with capabilities := s.capabilities.insert key rec' } := by
  intro k rec'' hk
  rw [lookupCapability, HashMap.lookup_insert_eq] at hk
  split at hk
  · rename_i heq
    rw [← Option.some.inj hk]
    exact ⟨rec, heq ▸ hkey, hages⟩
  · exact ⟨rec'', hk, .refl rec''⟩

/-- What adding a capability leaves. -/
theorem lookupCapability_addCapability (rec : CapabilityRecord) (s : IdentitySnapshot)
    (k : String) :
    (s.addCapability rec).lookupCapability k
      = if k = rec.keyId then some rec else s.lookupCapability k :=
  HashMap.lookup_insert_eq rec.keyId k rec s.capabilities

theorem aged_revokeCapability {keyId : String} (h : s.revokeCapability keyId = .ok s') :
    s.Aged s' := by
  unfold revokeCapability at h
  split at h
  · rename_i rec hrec
    rw [← Except.ok.inj h]
    exact aged_insert hrec (.revoke rec)
  · cases h

/-- What is revoked is revoked, if it was there. -/
theorem revoked_revokeCapability (h : s.revokeCapability k = .ok s')
    (hk : s'.lookupCapability k = some rec') : rec'.revoked = true := by
  unfold revokeCapability at h
  split at h
  · rw [← Except.ok.inj h, lookupCapability, AList.lookup_insert] at hk
    rw [← Option.some.inj hk]
  · cases h

theorem aged_applyTouches (pending : List (Sigma fun _ : String ↦ UInt64))
    (s : IdentitySnapshot) : s.Aged (s.applyTouches pending).1 := by
  induction pending generalizing s with
  | nil => exact .refl s
  | cons e pending ih =>
      obtain ⟨key, ts⟩ := e
      rw [applyTouches]
      split
      · rename_i rec hrec
        exact (aged_insert hrec (.touch rec ts)).trans (ih _)
      · exact ih s

theorem aged_prune (now grace : UInt64) (s : IdentitySnapshot) : s.Aged (s.prune now grace).1 := by
  intro k rec hk
  exact ⟨rec, (HashMap.mem_lookup_retain.mp hk).1, .refl rec⟩

/-- Without a removable record there is nothing to prune. -/
theorem prune_eq_self {now grace : UInt64} {s : IdentitySnapshot}
    (h : s.capabilities.values.any (removable now grace) = false) : s.prune now grace = (s, 0) := by
  have hkeep : s.capabilities.retain (fun _ rec ↦ !removable now grace rec) = s.capabilities := by
    apply HashMap.retain_eq_self
    intro e he
    have hmem : e.2 ∈ s.capabilities.values := List.mem_map_of_mem he
    simpa using List.any_eq_false.mp h e.2 hmem
  simp [prune, hkeep]

end IdentitySnapshot

/-- Whether a closure brings in a capability under the key id. -/
def Change.Adds (k : String) : Change → Prop
  | .addCapability rec => rec.keyId = k
  | _ => False

/-- **What a mutator does to a capability.**  After it, a record is the one that was added under
its key id, or one that was there before, aged. -/
theorem Change.apply_capability {change : Change} {s s' : IdentitySnapshot} {n : Nat}
    (h : change.apply s = .ok (s', n)) {k : String} {rec' : CapabilityRecord}
    (hk : s'.lookupCapability k = some rec') :
    (change = .addCapability rec' ∧ rec'.keyId = k) ∨
      ∃ rec, s.lookupCapability k = some rec ∧ rec.Ages rec' := by
  cases change with
  | addCapability rec =>
      obtain ⟨rfl, -⟩ := Prod.mk.inj (Except.ok.inj h)
      rw [IdentitySnapshot.lookupCapability_addCapability] at hk
      split at hk
      · rename_i heq
        obtain rfl := Option.some.inj hk
        exact .inl ⟨rfl, heq.symm⟩
      · exact .inr ⟨rec', hk, .refl rec'⟩
  | revokeCapability keyId =>
      refine .inr ?_
      rcases hrevoke : s.revokeCapability keyId with e | t
      · rw [Change.apply, hrevoke] at h
        cases h
      · rw [Change.apply, hrevoke] at h
        obtain ⟨rfl, -⟩ := Prod.mk.inj (Except.ok.inj h)
        exact IdentitySnapshot.aged_revokeCapability hrevoke k rec' hk
  | applyTouches pending =>
      have haged := IdentitySnapshot.aged_applyTouches pending.entries s
      rw [Except.ok.inj h] at haged
      exact .inr (haged k rec' hk)
  | prune now grace =>
      have haged := IdentitySnapshot.aged_prune now grace s
      rw [Except.ok.inj h] at haged
      exact .inr (haged k rec' hk)
  | addAccount rec =>
      obtain ⟨rfl, -⟩ := Prod.mk.inj (Except.ok.inj h)
      exact .inr ⟨rec', hk, .refl rec'⟩

/-- Touching records removes none and revokes none. -/
theorem IdentitySnapshot.applyTouches_kept (pending : List (Sigma fun _ : String ↦ UInt64))
    {s : IdentitySnapshot} {k : String} {rec : CapabilityRecord}
    (hk : s.lookupCapability k = some rec) :
    ∃ rec', (s.applyTouches pending).1.lookupCapability k = some rec' ∧ rec.Ages rec' ∧
      rec'.revoked = rec.revoked := by
  induction pending generalizing s rec with
  | nil => exact ⟨rec, hk, .refl rec, rfl⟩
  | cons e pending ih =>
      obtain ⟨key, ts⟩ := e
      rw [applyTouches]
      split
      · rename_i old hold
        rcases eq_or_ne k key with rfl | hne
        · obtain rfl := Option.some.inj (hk.symm.trans hold)
          let touched := s.capabilities.insert k { rec with lastUsed := some ts }
          obtain ⟨rec', hk', hages, hsame⟩ :=
            @ih { s with capabilities := touched } { rec with lastUsed := some ts }
              (AList.lookup_insert _)
          exact ⟨rec', hk', (CapabilityRecord.Ages.touch rec ts).trans hages, hsame⟩
        · exact ih ((AList.lookup_insert_ne hne).trans hk)
      · exact ih hk

/-- **What a mutator leaves of a capability.**  Unless it adds one under its key id, the record is
there after it, aged, and revoked only if that is what the mutator is for; or else it was pruned. -/
theorem Change.apply_kept {change : Change} {s s' : IdentitySnapshot} {n : Nat}
    (h : change.apply s = .ok (s', n)) {k : String} (hadds : ¬ change.Adds k)
    {rec : CapabilityRecord} (hk : s.lookupCapability k = some rec) :
    (∃ rec', s'.lookupCapability k = some rec' ∧ rec.Ages rec' ∧
      (rec'.revoked = rec.revoked ∨ change = .revokeCapability k)) ∨
    s'.lookupCapability k = none ∧
      ∃ now grace, change = .prune now grace ∧ removable now grace rec = true := by
  cases change with
  | addCapability added =>
      obtain ⟨rfl, -⟩ := Prod.mk.inj (Except.ok.inj h)
      refine .inl ⟨rec, ?_, .refl rec, .inl rfl⟩
      rw [IdentitySnapshot.lookupCapability_addCapability, if_neg (Ne.symm hadds)]
      exact hk
  | revokeCapability keyId =>
      refine .inl ?_
      rcases hrevoke : s.revokeCapability keyId with e | t
      · rw [Change.apply, hrevoke] at h
        cases h
      · rw [Change.apply, hrevoke] at h
        obtain ⟨rfl, -⟩ := Prod.mk.inj (Except.ok.inj h)
        unfold IdentitySnapshot.revokeCapability at hrevoke
        split at hrevoke
        · rename_i old hold
          obtain rfl := Except.ok.inj hrevoke
          rcases eq_or_ne k keyId with rfl | hne
          · obtain rfl := Option.some.inj (hk.symm.trans hold)
            exact ⟨_, AList.lookup_insert _, .revoke rec, .inr rfl⟩
          · exact ⟨rec, (AList.lookup_insert_ne hne).trans hk, .refl rec, .inl rfl⟩
        · cases hrevoke
  | applyTouches pending =>
      obtain ⟨rec', hk', hages, hsame⟩ := IdentitySnapshot.applyTouches_kept pending.entries hk
      rw [Except.ok.inj h] at hk'
      exact .inl ⟨rec', hk', hages, .inl hsame⟩
  | prune now grace =>
      obtain ⟨rfl, -⟩ := Prod.mk.inj (Except.ok.inj h)
      cases hremove : removable now grace rec with
      | false =>
          refine .inl ⟨rec, ?_, .refl rec, .inl rfl⟩
          exact HashMap.mem_lookup_retain.mpr ⟨hk, by rw [hremove]; rfl⟩
      | true =>
          refine .inr ⟨?_, now, grace, rfl, hremove⟩
          refine (HashMap.lookup_retain _ _ k).trans ?_
          rw [show s.capabilities.lookup k = some rec from hk]
          exact Option.filter_some_neg (by simp [hremove])
  | addAccount added =>
      obtain ⟨rfl, -⟩ := Prod.mk.inj (Except.ok.inj h)
      exact .inl ⟨rec, hk, .refl rec, .inl rfl⟩

/-- Touches leave the accounts alone. -/
theorem IdentitySnapshot.accounts_applyTouches (pending : List (Sigma fun _ : String ↦ UInt64))
    (s : IdentitySnapshot) : (s.applyTouches pending).1.accounts = s.accounts := by
  induction pending generalizing s with
  | nil => rfl
  | cons e pending ih =>
      rw [applyTouches]
      split
      · exact ih _
      · exact ih s

/-- **No mutator removes an account.** -/
theorem Change.apply_account {change : Change} {s s' : IdentitySnapshot} {n : Nat}
    (h : change.apply s = .ok (s', n)) {name : String} (hname : (s.lookupAccount name).isSome) :
    (s'.lookupAccount name).isSome := by
  cases change with
  | addCapability added =>
      obtain ⟨rfl, -⟩ := Prod.mk.inj (Except.ok.inj h)
      exact hname
  | revokeCapability keyId =>
      rcases hrevoke : s.revokeCapability keyId with e | t
      · rw [Change.apply, hrevoke] at h
        cases h
      · rw [Change.apply, hrevoke] at h
        obtain ⟨rfl, -⟩ := Prod.mk.inj (Except.ok.inj h)
        unfold IdentitySnapshot.revokeCapability at hrevoke
        split at hrevoke
        · rw [← Except.ok.inj hrevoke]
          exact hname
        · cases hrevoke
  | applyTouches pending =>
      have haccounts := IdentitySnapshot.accounts_applyTouches pending.entries s
      rw [Except.ok.inj h] at haccounts
      rw [IdentitySnapshot.lookupAccount, haccounts]
      exact hname
  | prune now grace =>
      obtain ⟨rfl, -⟩ := Prod.mk.inj (Except.ok.inj h)
      exact hname
  | addAccount added =>
      obtain ⟨rfl, -⟩ := Prod.mk.inj (Except.ok.inj h)
      rw [IdentitySnapshot.addAccount, IdentitySnapshot.lookupAccount, HashMap.lookup_insert_eq]
      split
      · rfl
      · exact hname

end Vaiexia.Auth
