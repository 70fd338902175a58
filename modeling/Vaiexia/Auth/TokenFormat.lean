import Vaiexia.Auth.Token
import Vaiexia.Lib.BitText

/-!
# The format of tokens

`mint` and `parse` are inverse to each other, where the encodings keep what their crates document
(`TokenCrypto.Lawful`): a token has one key id and one secret, and one text.  The encodings of
RFC 4648 are lawful.
-/

namespace Vaiexia.Auth

open Vaiexia.Lib

/-! ## Lawful encodings -/

/-- What the crates `base32` and `base64` document: base32 takes five bits a character, in lower
case; base64 decodes what it encodes and, because it takes no other filling than zeros, nothing
else. -/
structure TokenCrypto.Lawful (X : TokenCrypto) : Prop where
  length_base32 : ∀ bytes, (X.base32Encode bytes).length = (8 * bytes.length + 4) / 5
  base32_chars : ∀ bytes, ∀ c ∈ X.base32Encode bytes, Token.isKeyIdChar c = true
  decode_encode : ∀ bytes, X.base64Decode (X.base64Encode bytes) = some bytes
  encode_decode : ∀ text bytes, X.base64Decode text = some bytes → X.base64Encode bytes = text

/-- The encodings of RFC 4648, with some hash. -/
def rfc4648 (blake3 : Bytes → Bytes32) : TokenCrypto where
  base32Encode := BitText.encode BitText.base32Lower
  base64Encode := BitText.encode BitText.base64Url
  base64Decode := BitText.decode BitText.base64Url
  blake3 := blake3

theorem rfc4648_lawful (blake3 : Bytes → Bytes32) : (rfc4648 blake3).Lawful where
  length_base32 := BitText.length_encode BitText.base32Lower
  base32_chars := by
    intro bytes c hc
    have hmem : c ∈ BitText.base32Lower.chars :=
      BitText.mem_chars_of_mem_encode (by decide) hc
    have hall : (BitText.base32Lower.chars.all Token.isKeyIdChar) = true := by decide
    exact List.all_eq_true.mp hall c hmem
  decode_encode := BitText.decode_encode (by decide) (by decide)
  encode_decode := fun _ _ h ↦ BitText.encode_of_decode (by decide) h

namespace Token

variable {X : TokenCrypto}

/-- Ten bytes make a key id. -/
theorem isKeyId_base32Encode (hX : X.Lawful) {keyIdRaw : Bytes} (h : keyIdRaw.length = 10) :
    isKeyId (X.base32Encode keyIdRaw) = true :=
  isKeyId_iff.mpr ⟨by rw [hX.length_base32, h], hX.base32_chars keyIdRaw⟩

/-- The text of a token. -/
def tokenText (X : TokenCrypto) (keyId : String) (secret : Bytes) : String :=
  "vxs1." ++ keyId ++ "." ++ String.ofList (X.base64Encode secret)

theorem toList_tokenText (keyId : String) (secret : Bytes) :
    (tokenText X keyId secret).toList
      = capPrefix ++ '.' :: (keyId.toList ++ '.' :: X.base64Encode secret) := by
  simp [tokenText, capPrefix]

/-- What `mint` makes is the text of its key id and its secret. -/
theorem capability_mint (X : TokenCrypto) (keyIdRaw secret : Bytes) :
    (mint X keyIdRaw secret).capability = tokenText X (mint X keyIdRaw secret).keyId secret := by
  apply String.toList_injective
  rw [toList_tokenText]
  simp [mint]

/-- **`parse` accepts the texts of key ids and secrets**, each for its own pair. -/
theorem parse_eq_some_iff_tokenText (hX : X.Lawful) {cap keyId : String} {secret : Bytes} :
    parse X cap = some (keyId, secret) ↔
      (keyId.toList.length = 16 ∧ ∀ c ∈ keyId.toList, isKeyIdChar c = true) ∧
        secret.length = 32 ∧ cap = tokenText X keyId secret := by
  rw [parse_eq_some_iff, isKeyId_iff]
  constructor
  · rintro ⟨hkey, hlen, text, hdecode, hcap⟩
    refine ⟨hkey, hlen, String.toList_injective ?_⟩
    rw [hcap, toList_tokenText, hX.encode_decode text secret hdecode]
  · rintro ⟨hkey, hlen, rfl⟩
    exact ⟨hkey, hlen, X.base64Encode secret, hX.decode_encode secret,
      toList_tokenText keyId secret⟩

/-- **The format of tokens is exact.**  What is minted parses to the key id and the secret that were
drawn, and the secret is accepted; only the text of a key id and a secret parses, to these; and the
key id that is logged is the one that parses. -/
theorem token_format (hX : X.Lawful) :
    (∀ keyIdRaw secret : Bytes, keyIdRaw.length = 10 → secret.length = 32 →
      parse X (mint X keyIdRaw secret).capability = some ((mint X keyIdRaw secret).keyId, secret) ∧
      (mint X keyIdRaw secret).keyId = String.ofList (X.base32Encode keyIdRaw) ∧
      verifySecret X secret (mint X keyIdRaw secret).secretHash = true) ∧
    (∀ (cap keyId : String) (secret : Bytes), parse X cap = some (keyId, secret) →
      (keyId.toList.length = 16 ∧ ∀ c ∈ keyId.toList, isKeyIdChar c = true) ∧
      secret.length = 32 ∧ cap = "vxs1." ++ keyId ++ "." ++ String.ofList (X.base64Encode secret)) ∧
    ∀ (cap keyId : String) (secret : Bytes), parse X cap = some (keyId, secret) →
      parseKeyId cap = some keyId := by
  refine ⟨fun keyIdRaw secret hkey hlen ↦ ⟨?_, rfl, ?_⟩, fun cap keyId secret h ↦ ?_,
    fun cap keyId secret h ↦ parseKeyId_of_parse h⟩
  · exact parse_mint (isKeyId_base32Encode hX hkey) (hX.decode_encode secret) hlen
  · exact verifySecret_iff.mpr rfl
  · exact (parse_eq_some_iff_tokenText hX).mp h

/-- The token that is minted from zeros. -/
theorem token_format_zeros :
    parse (rfc4648 sampleCrypto.blake3)
        (mint (rfc4648 sampleCrypto.blake3) (List.replicate 10 0)
          (List.replicate 32 0)).capability
      = some ((mint (rfc4648 sampleCrypto.blake3) (List.replicate 10 0)
          (List.replicate 32 0)).keyId, List.replicate 32 0) :=
  ((token_format (rfc4648_lawful sampleCrypto.blake3)).1 _ _ rfl rfl).1

end Token

end Vaiexia.Auth
