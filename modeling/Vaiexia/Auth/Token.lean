import Vaiexia.Lib.Hex
import Vaiexia.Lib.Text

/-!
# Capability tokens

`crates/vaiexia-server/src/auth/token.rs`.  A token is `vxs1.<key id>.<secret>`, the key id in
base32 and the secret in base64; the store keeps the BLAKE3 hash of the secret.  The encodings and
the hash are functions of other crates and come as a `TokenCrypto`.
-/

namespace Vaiexia.Auth

open Vaiexia.Lib

/-- What tokens use of the crates `base32`, `base64` and `blake3`. -/
structure TokenCrypto where
  /-- `base32::encode`, lower case and without padding. -/
  base32Encode : Bytes → List Char
  /-- `URL_SAFE_NO_PAD.encode`. -/
  base64Encode : Bytes → List Char
  /-- `URL_SAFE_NO_PAD.decode`. -/
  base64Decode : List Char → Option Bytes
  /-- `blake3::hash`. -/
  blake3 : Bytes → Bytes32

namespace Token

/-- `CAP_PREFIX`. -/
def capPrefix : List Char := "vxs1".toList

/-- `MintedCapability`. -/
structure MintedCapability where
  capability : String
  keyId : String
  secretHash : Bytes32

/-- `mint`, on the random bytes it draws. -/
def mint (X : TokenCrypto) (keyIdRaw secret : Bytes) : MintedCapability where
  capability := String.ofList
    (capPrefix ++ '.' :: X.base32Encode keyIdRaw ++ '.' :: X.base64Encode secret)
  keyId := String.ofList (X.base32Encode keyIdRaw)
  secretHash := X.blake3 secret

/-- The characters of a key id. -/
def isKeyIdChar (c : Char) : Bool := ('a' ≤ c && c ≤ 'z') || ('2' ≤ c && c ≤ '7')

/-- The test that `parse` and `parse_key_id` make of a key id. -/
def isKeyId (keyId : List Char) : Bool := Utf8.byteLen keyId == 16 && keyId.all isKeyIdChar

/-- `parse`: the key id and the secret of a well-formed token. -/
def parse (X : TokenCrypto) (cap : String) : Option (String × Bytes) :=
  match Text.splitn 3 '.' cap.toList with
  | [pre, keyId, secretB64] =>
      if pre ≠ capPrefix then none
      else if !isKeyId keyId then none
      else
        match X.base64Decode secretB64 with
        | none => none
        | some secret =>
            if secret.length ≠ 32 then none else some (String.ofList keyId, secret)
  | _ => none

/-- `verify_secret`. -/
def verifySecret (X : TokenCrypto) (presented : Bytes) (storedHash : Bytes32) : Bool :=
  X.blake3 presented == storedHash

/-- `parse_key_id`, which does not look at the secret. -/
def parseKeyId (cap : String) : Option String :=
  match Text.splitn 3 '.' cap.toList with
  | pre :: keyId :: _ =>
      if pre ≠ capPrefix then none
      else if !isKeyId keyId then none
      else some (String.ofList keyId)
  | _ => none

/-- A token that parses has the key id that is logged for it. -/
theorem parseKeyId_of_parse {X : TokenCrypto} {cap keyId : String} {secret : Bytes}
    (h : parse X cap = some (keyId, secret)) : parseKeyId cap = some keyId := by
  unfold parse at h
  split at h
  · rename_i pre key secretB64 hsplit
    split at h
    · cases h
    · rename_i hpre
      split at h
      · cases h
      · rename_i hkey
        split at h
        · cases h
        · split at h
          · cases h
          · obtain ⟨rfl, -⟩ := Prod.mk.inj (Option.some.inj h)
            simp only [parseKeyId, hsplit, if_neg hpre, if_neg hkey]
  · cases h

@[simp] theorem verifySecret_iff {X : TokenCrypto} {presented : Bytes} {storedHash : Bytes32} :
    verifySecret X presented storedHash = true ↔ storedHash = X.blake3 presented := by
  rw [verifySecret, beq_iff_eq, eq_comm]

/-- The characters of a key id are one byte long. -/
theorem utf8Size_of_isKeyIdChar {c : Char} (h : isKeyIdChar c = true) : c.utf8Size = 1 := by
  apply Json.utf8Size_of_toNat_lt
  rw [isKeyIdChar, Bool.or_eq_true, Bool.and_eq_true, Bool.and_eq_true] at h
  rcases h with ⟨-, h⟩ | ⟨-, h⟩
  · exact Nat.lt_of_le_of_lt (of_decide_eq_true h : c.toNat ≤ 'z'.toNat) (by decide)
  · exact Nat.lt_of_le_of_lt (of_decide_eq_true h : c.toNat ≤ '7'.toNat) (by decide)

/-- A key id is sixteen characters of base32. -/
theorem isKeyId_iff {keyId : List Char} :
    isKeyId keyId = true ↔ keyId.length = 16 ∧ ∀ c ∈ keyId, isKeyIdChar c = true := by
  rw [isKeyId, Bool.and_eq_true, List.all_eq_true, beq_iff_eq]
  constructor
  · rintro ⟨hlen, hall⟩
    exact ⟨by rw [← hlen, Utf8.byteLen_eq_length fun c hc ↦ utf8Size_of_isKeyIdChar (hall c hc)],
      hall⟩
  · rintro ⟨hlen, hall⟩
    exact ⟨by rw [Utf8.byteLen_eq_length fun c hc ↦ utf8Size_of_isKeyIdChar (hall c hc), hlen],
      hall⟩

/-- The dot that separates the parts of a token is not a character of a key id. -/
theorem dot_notMem_of_isKeyId {keyId : List Char} (h : isKeyId keyId = true) : '.' ∉ keyId := by
  intro hmem
  have hall := (Bool.and_eq_true_iff.mp h).2
  exact absurd (List.all_eq_true.mp hall '.' hmem) (by decide)

theorem dot_notMem_capPrefix : '.' ∉ capPrefix := by decide

/-- The pieces of a text that has the form of a token. -/
theorem splitn_token {keyId text : List Char} (h : isKeyId keyId = true) :
    Text.splitn 3 '.' (capPrefix ++ '.' :: (keyId ++ '.' :: text)) = [capPrefix, keyId, text] := by
  rw [Text.splitn_append 1 _ dot_notMem_capPrefix,
    Text.splitn_append 0 _ (dot_notMem_of_isKeyId h), Text.splitn]

/-- The text presents the key id as that of a token: after the prefix, up to the next dot or the
end. -/
def Presents (cap keyId : String) : Prop :=
  isKeyId keyId.toList = true ∧
    (cap.toList = capPrefix ++ '.' :: keyId.toList ∨
      ∃ rest, cap.toList = capPrefix ++ '.' :: (keyId.toList ++ '.' :: rest))

/-- **`parse_key_id`** finds the key id that a text presents. -/
theorem parseKeyId_eq_some_iff {cap keyId : String} :
    parseKeyId cap = some keyId ↔ Presents cap keyId := by
  constructor
  · intro h
    rcases Text.splitOnce_spec '.' cap.toList with ⟨hsplit, -⟩ | ⟨pre, rest, hsplit, hcap, -⟩
    · simp [parseKeyId, Text.splitn, hsplit] at h
    · rcases Text.splitOnce_spec '.' rest with ⟨hrest, -⟩ | ⟨key, text, hrest, hkeyText, -⟩
      · simp only [parseKeyId, Text.splitn, hsplit, hrest] at h
        split at h
        · cases h
        · rename_i hpre
          split at h
          · cases h
          · rename_i hkey
            rw [← Option.some.inj h, Presents, String.toList_ofList]
            exact ⟨by simpa using hkey, .inl (by rw [hcap, not_not.mp hpre])⟩
      · simp only [parseKeyId, Text.splitn, hsplit, hrest] at h
        split at h
        · cases h
        · rename_i hpre
          split at h
          · cases h
          · rename_i hkey
            rw [← Option.some.inj h, Presents, String.toList_ofList]
            exact ⟨by simpa using hkey,
              .inr ⟨text, by rw [hcap, not_not.mp hpre, hkeyText]⟩⟩
  · rintro ⟨hkey, hcap | ⟨rest, hcap⟩⟩
    · have hsplit : Text.splitn 3 '.' cap.toList = [capPrefix, keyId.toList] := by
        rw [hcap, Text.splitn_append 1 _ dot_notMem_capPrefix,
          Text.splitn_of_notMem 1 (dot_notMem_of_isKeyId hkey)]
      simp [parseKeyId, hsplit, hkey]
    · have hsplit : Text.splitn 3 '.' cap.toList = [capPrefix, keyId.toList, rest] := by
        rw [hcap, splitn_token hkey]
      simp [parseKeyId, hsplit, hkey]

/-- **`parse`** accepts what puts a prefix, a key id and the text of a secret together. -/
theorem parse_eq_some_iff {X : TokenCrypto} {cap keyId : String} {secret : Bytes} :
    parse X cap = some (keyId, secret) ↔
      isKeyId keyId.toList = true ∧ secret.length = 32 ∧
        ∃ text, X.base64Decode text = some secret ∧
          cap.toList = capPrefix ++ '.' :: (keyId.toList ++ '.' :: text) := by
  constructor
  · intro h
    obtain ⟨hkey, hcap | ⟨rest, hcap⟩⟩ := parseKeyId_eq_some_iff.mp (parseKeyId_of_parse h)
    · have hsplit : Text.splitn 3 '.' cap.toList = [capPrefix, keyId.toList] := by
        rw [hcap, Text.splitn_append 1 _ dot_notMem_capPrefix,
          Text.splitn_of_notMem 1 (dot_notMem_of_isKeyId hkey)]
      rw [parse, hsplit] at h
      cases h
    · rw [parse, hcap, splitn_token hkey] at h
      rcases hdecode : X.base64Decode rest with _ | bytes
      · simp [hkey, hdecode] at h
      · simp [hkey, hdecode] at h
        obtain ⟨hlen, rfl⟩ := h
        exact ⟨hkey, hlen, rest, hdecode, hcap⟩
  · rintro ⟨hkey, hlen, text, hdecode, hcap⟩
    rw [parse, hcap, splitn_token hkey]
    simp [hkey, hdecode, hlen]

/-- **A minted token parses** to its key id and its secret, where the encodings do what they
promise. -/
theorem parse_mint {X : TokenCrypto} {keyIdRaw secret : Bytes}
    (hkey : isKeyId (X.base32Encode keyIdRaw) = true)
    (hsecret : X.base64Decode (X.base64Encode secret) = some secret) (hlen : secret.length = 32) :
    parse X (mint X keyIdRaw secret).capability
      = some ((mint X keyIdRaw secret).keyId, secret) := by
  have hprefix : '.' ∉ capPrefix := by decide
  have hsplit : Text.splitn 3 '.' (mint X keyIdRaw secret).capability.toList
      = [capPrefix, X.base32Encode keyIdRaw, X.base64Encode secret] := by
    rw [mint, String.toList_ofList, List.append_assoc, List.cons_append,
      Text.splitn_append 1 _ hprefix, Text.splitn_append 0 _ (dot_notMem_of_isKeyId hkey)]
    rfl
  unfold parse
  rw [hsplit]
  simp [hkey, hsecret, hlen, mint]

/-! ## Two tokens -/

/-- What the crates say about strings of zero bytes and strings of `0xff` bytes. -/
def sampleCrypto : TokenCrypto where
  base32Encode bytes := List.replicate 16 (if bytes.head? = some 0 then 'a' else '7')
  base64Encode bytes :=
    if bytes.head? = some 0 then List.replicate 43 'A' else List.replicate 42 '_' ++ ['8']
  base64Decode cs :=
    if cs = List.replicate 43 'A' then some (List.replicate 32 0)
    else if cs = List.replicate 42 '_' ++ ['8'] then some (List.replicate 32 0xff)
    else none
  blake3 bytes :=
    if bytes.head? = some 0 then
      { bytes := [0x2a, 0xda, 0x83, 0xc1, 0x81, 0x9a, 0x53, 0x72, 0xda, 0xe1, 0x23, 0x8f, 0xc1,
          0xde, 0xd1, 0x23, 0xc8, 0x10, 0x4f, 0xda, 0xa1, 0x58, 0x62, 0xaa, 0xee, 0x69, 0x42, 0x8a,
          0x18, 0x20, 0xfc, 0xda]
        length_eq := rfl }
    else
      { bytes := [0x9b, 0x34, 0xf0, 0x60, 0xfb, 0xc0, 0xf0, 0xaa, 0x11, 0xf1, 0x50, 0xe2, 0x65,
          0x19, 0xde, 0xff, 0x61, 0x32, 0x77, 0xb6, 0x06, 0x56, 0xf0, 0xf8, 0x35, 0x6e, 0xd2, 0x26,
          0x15, 0x05, 0xf5, 0xc5]
        length_eq := rfl }

/-- The token that is minted from zeros. -/
def zeroToken : MintedCapability :=
  mint sampleCrypto (List.replicate 10 0) (List.replicate 32 0)

theorem parse_zeroToken :
    parse sampleCrypto zeroToken.capability = some (zeroToken.keyId, List.replicate 32 0) :=
  parse_mint (by decide) (by decide) rfl

end Token

end Vaiexia.Auth
