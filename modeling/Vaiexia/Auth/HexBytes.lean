import Vaiexia.Auth.Snapshot

/-!
# The codec of secret hashes

`hex_bytes` of `crates/vaiexia-server/src/auth/store.rs`, on the bytes of a text, as the source goes
through them.  An index out of bounds is a panic.

The length is tested in bytes, so that a text of other characters than ASCII gets as far as the
loop, which stops at the first byte that is no digit (`fill_error`).
-/

namespace Vaiexia.Auth

open Vaiexia.Lib

namespace HexBytes

/-! ## The source -/

/-- `hex_nibble`. -/
def hexNibble (b : UInt8) : Except String UInt8 :=
  if 0x30 ≤ b ∧ b ≤ 0x39 then .ok (b - 0x30)
  else if 0x61 ≤ b ∧ b ≤ 0x66 then .ok (b - 0x61 + 10)
  else if 0x41 ≤ b ∧ b ≤ 0x46 then .ok (b - 0x41 + 10)
  else .error "invalid hex character"

/-- `chunks(2)`. -/
def chunks : Bytes → List Bytes
  | [] => []
  | [a] => [[a]]
  | a :: b :: bs => [a, b] :: chunks bs

/-- The byte that a chunk stands for; `none` is a panic. -/
def readChunk (chunk : Bytes) : Option (Except String UInt8) :=
  match chunk[0]? with
  | none => none
  | some a =>
      match hexNibble a with
      | .error e => some (.error e)
      | .ok hi =>
          match chunk[1]? with
          | none => none
          | some b =>
              match hexNibble b with
              | .error e => some (.error e)
              | .ok lo => some (.ok (hi <<< 4 ||| lo))

/-- `out[i] = v`; `none` is a panic. -/
def store (out : Bytes32) (i : Nat) (v : UInt8) : Option Bytes32 :=
  if i < out.bytes.length then
    some ⟨out.bytes.set i v, by rw [List.length_set, out.length_eq]⟩
  else none

/-- The loop of `hex_bytes::deserialize`, from a chunk with index `i` on; `none` is a panic. -/
def fill : Nat → List Bytes → Bytes32 → Option (Except String Bytes32)
  | _, [], out => some (.ok out)
  | i, chunk :: chunks, out =>
      match readChunk chunk with
      | none => none
      | some (.error e) => some (.error e)
      | some (.ok v) =>
          match store out i v with
          | none => none
          | some out => fill (i + 1) chunks out

/-- `hex_bytes::deserialize`, of a text; `none` is a panic. -/
def deserialize (s : String) : Option (Except String Bytes32) :=
  if Utf8.byteLen s.toList ≠ 64 then some (.error "expected 64 hex chars for [u8;32]")
  else fill 0 (chunks (Utf8.encode s.toList)) .zero

/-- `hex_bytes::serialize`, to a text. -/
def serialize (bytes : Bytes32) : String := String.ofList (Hex.ofBytes bytes.bytes)

/-! ## Digits -/

/-- A digit is one byte, of which the nibble is taken. -/
theorem encode_digit {c : Char} (h : c ∈ Hex.anyCase) :
    ∃ b n, String.utf8EncodeChar c = [b] ∧ n < 16 ∧ Hex.nibble c = some n ∧
      hexNibble b = .ok (UInt8.ofNat n) := by
  have hall : (Hex.anyCase.all fun c ↦ (Hex.nibble c).any fun n ↦
      String.utf8EncodeChar c == [UInt8.ofNat c.toNat] && decide (n < 16) &&
        decide (hexNibble (UInt8.ofNat c.toNat) = .ok (UInt8.ofNat n))) = true := by decide
  have hc := List.all_eq_true.mp hall c h
  cases hn : Hex.nibble c with
  | none =>
      rw [hn] at hc
      cases hc
  | some n =>
      simp only [hn, Option.any_some, Bool.and_eq_true, decide_eq_true_iff, beq_iff_eq] at hc
      exact ⟨_, n, hc.1.1, hc.1.2, rfl, hc.2⟩

/-- A byte with a nibble is that of a digit. -/
theorem exists_digit {b : UInt8} {n : UInt8} (h : hexNibble b = .ok n) :
    ∃ c ∈ Hex.anyCase, String.utf8EncodeChar c = [b] := by
  have hall : ((List.range 256).all fun m ↦
      match hexNibble (UInt8.ofNat m) with
      | .ok _ => decide (Char.ofNat m ∈ Hex.anyCase) &&
          String.utf8EncodeChar (Char.ofNat m) == [UInt8.ofNat m]
      | .error _ => true) = true := by decide +kernel
  have hb := List.all_eq_true.mp hall b.toNat (List.mem_range.mpr b.toNat_lt)
  rw [UInt8.ofNat_toNat, h, Bool.and_eq_true, decide_eq_true_iff, beq_iff_eq] at hb
  exact ⟨_, hb⟩

theorem nibbles_or {hi lo : Nat} (hhi : hi < 16) (hlo : lo < 16) :
    UInt8.ofNat hi <<< 4 ||| UInt8.ofNat lo = UInt8.ofNat (hi * 16 + lo) := by
  have hall : ((List.range 16).all fun hi ↦ (List.range 16).all fun lo ↦
      UInt8.ofNat hi <<< 4 ||| UInt8.ofNat lo == UInt8.ofNat (hi * 16 + lo)) = true := by decide
  exact beq_iff_eq.mp (List.all_eq_true.mp (List.all_eq_true.mp hall hi (List.mem_range.mpr hhi)) lo
    (List.mem_range.mpr hlo))

/-- The byte of two digits. -/
theorem readChunk_pair {a b : UInt8} {hi lo : Nat} (hhi : hi < 16) (hlo : lo < 16)
    (ha : hexNibble a = .ok (UInt8.ofNat hi)) (hb : hexNibble b = .ok (UInt8.ofNat lo)) :
    readChunk [a, b] = some (.ok (UInt8.ofNat (hi * 16 + lo))) := by
  simp only [readChunk, List.getElem?_cons_zero, List.getElem?_cons_succ, ha, hb,
    nibbles_or hhi hlo]

/-- Bytes that all have a nibble are a text of digits. -/
theorem mem_anyCase_of_bytes {cs : List Char}
    (h : ∀ b ∈ Utf8.encode cs, ∃ n, hexNibble b = .ok n) : ∀ c ∈ cs, c ∈ Hex.anyCase := by
  obtain ⟨ds, hds, hencode⟩ : ∃ ds : List Char, (∀ c ∈ ds, c ∈ Hex.anyCase) ∧
      Utf8.encode ds = Utf8.encode cs := by
    generalize Utf8.encode cs = bs at h
    induction bs with
    | nil => exact ⟨[], nofun, rfl⟩
    | cons b bs ih =>
        obtain ⟨n, hn⟩ := h b List.mem_cons_self
        obtain ⟨c, hc, hencode⟩ := exists_digit hn
        obtain ⟨ds, hds, hrest⟩ := ih fun b' hb' ↦ h b' (List.mem_cons_of_mem b hb')
        refine ⟨c :: ds, List.forall_mem_cons.mpr ⟨hc, hds⟩, ?_⟩
        rw [Utf8.encode_cons, hencode, hrest]
        rfl
  rwa [← Utf8.encode_injective hencode]

/-! ## The loop -/

/-- Storing a byte after those that are done. -/
theorem store_eq {out : Bytes32} {done left : Bytes} {x : UInt8}
    (hout : out.bytes = done ++ x :: left) (v : UInt8) :
    ∃ out', store out done.length v = some out' ∧ out'.bytes = (done ++ [v]) ++ left := by
  have hlt : done.length < out.bytes.length := by
    rw [hout, List.length_append, List.length_cons]
    omega
  refine ⟨_, if_pos hlt, ?_⟩
  show out.bytes.set done.length v = _
  rw [hout, List.set_append_right _ _ (Nat.le_refl _), Nat.sub_self, List.set_cons_zero,
    List.append_assoc, List.singleton_append]

/-- **The loop over digits** stores the bytes that they make after those that are done. -/
theorem fill_digits {cs : List Char} {bs : Bytes} (hcs : ∀ c ∈ cs, c ∈ Hex.anyCase)
    (hbs : Hex.toBytes cs = some bs) {out : Bytes32} {done left : Bytes}
    (hout : out.bytes = done ++ left) (hleft : left.length = bs.length) :
    ∃ out', fill done.length (chunks (Utf8.encode cs)) out = some (.ok out') ∧
      out'.bytes = done ++ bs := by
  induction cs using Hex.toBytes.induct generalizing bs out done left with
  | case1 =>
      obtain rfl := Option.some.inj hbs
      obtain rfl := List.length_eq_zero_iff.mp hleft
      exact ⟨out, rfl, hout⟩
  | case2 => cases hbs
  | case3 a b cs ih =>
      have hb := hcs b (List.mem_cons_of_mem a List.mem_cons_self)
      obtain ⟨a', hi, hencode, hlt, hnibble, hvalue⟩ := encode_digit (hcs a List.mem_cons_self)
      obtain ⟨b', lo, hencode', hlt', hnibble', hvalue'⟩ := encode_digit hb
      simp only [Hex.toBytes, hnibble, hnibble', Option.bind_eq_bind, Option.bind_some] at hbs
      obtain ⟨rest, hrest, hcons⟩ := Option.bind_eq_some_iff.mp hbs
      obtain rfl := Option.some.inj hcons
      obtain ⟨x, left, rfl⟩ := List.exists_cons_of_length_eq_add_one hleft
      obtain ⟨out', hstore, hout'⟩ := store_eq hout (UInt8.ofNat (hi * 16 + lo))
      have htail : ∀ c ∈ cs, c ∈ Hex.anyCase := fun c hc ↦
        hcs c (List.mem_cons_of_mem a (List.mem_cons_of_mem b hc))
      obtain ⟨out'', hfill, hout''⟩ := ih htail hrest hout' (Nat.succ.inj hleft)
      rw [List.length_append, List.length_singleton] at hfill
      refine ⟨out'', ?_, by rw [hout'', List.append_assoc, List.singleton_append]⟩
      rw [Utf8.encode_cons, Utf8.encode_cons, hencode, hencode', List.singleton_append,
        List.singleton_append, chunks, fill, readChunk_pair hlt hlt' hvalue hvalue']
      dsimp only
      rw [hstore]
      exact hfill

/-- A chunk of two bytes is read, or one of them is no digit. -/
theorem readChunk_cases (a b : UInt8) :
    (∃ v, readChunk [a, b] = some (.ok v) ∧ (∃ n, hexNibble a = .ok n) ∧
      ∃ n, hexNibble b = .ok n) ∨ ∃ e, readChunk [a, b] = some (.error e) := by
  simp only [readChunk, List.getElem?_cons_zero, List.getElem?_cons_succ]
  cases ha : hexNibble a with
  | error e => exact .inr ⟨e, rfl⟩
  | ok hi =>
      cases hb : hexNibble b with
      | error e => exact .inr ⟨e, rfl⟩
      | ok lo => exact .inl ⟨_, rfl, ⟨hi, rfl⟩, lo, rfl⟩

/-- **The loop stops at a byte that is no digit**, and no index is out of bounds before. -/
theorem fill_error {bs : Bytes} {k : Nat} (hlen : bs.length = 2 * k)
    (hbad : ¬ ∀ b ∈ bs, ∃ n, hexNibble b = .ok n) {i : Nat} (hi : i + k ≤ 32) (out : Bytes32) :
    ∃ e, fill i (chunks bs) out = some (.error e) := by
  induction k generalizing bs i out with
  | zero =>
      obtain rfl := List.length_eq_zero_iff.mp hlen
      exact absurd nofun hbad
  | succ k ih =>
      match bs, hlen with
      | a :: b :: bs, hlen =>
          rw [List.length_cons, List.length_cons] at hlen
          rw [chunks, fill]
          rcases readChunk_cases a b with ⟨v, hread, ha, hb⟩ | ⟨e, hread⟩
          · have hbad' : ¬ ∀ b ∈ bs, ∃ n, hexNibble b = .ok n := fun h ↦
              hbad (List.forall_mem_cons.mpr ⟨ha, List.forall_mem_cons.mpr ⟨hb, h⟩⟩)
            have hlt : i < out.bytes.length := by
              rw [out.length_eq]
              omega
            have hstore : store out i v = some _ := if_pos hlt
            rw [hread]
            dsimp only
            rw [hstore]
            exact ih (by omega) hbad' (by omega) _
          · exact ⟨e, by rw [hread]⟩

/-! ## Texts -/

theorem byteLen_digits {cs : List Char} (hcs : ∀ c ∈ cs, c ∈ Hex.anyCase) :
    Utf8.byteLen cs = cs.length := by
  refine Utf8.byteLen_eq_length fun c hc ↦ ?_
  obtain ⟨b, -, hencode, -⟩ := encode_digit (hcs c hc)
  rw [← String.length_utf8EncodeChar, hencode]
  rfl

/-- **A text of 64 digits** is read as the bytes that are written as it in lower case. -/
theorem deserialize_digits {s : String} (hlen : s.toList.length = 64)
    (hcs : ∀ c ∈ s.toList, c ∈ Hex.anyCase) :
    ∃ bytes, deserialize s = some (.ok bytes) ∧ Hex.toBytes s.toList = some bytes.bytes ∧
      (serialize bytes).toList = s.toList.map Char.toLower := by
  obtain ⟨bs, hbs, hbslen, hlower⟩ := Hex.exists_toBytes (k := 32) hlen hcs
  have h64 : Utf8.byteLen s.toList = 64 := (byteLen_digits hcs).trans hlen
  obtain ⟨out, hfill, hout⟩ := fill_digits hcs hbs (List.nil_append Bytes32.zero.bytes).symm
    (Bytes32.zero.length_eq.trans hbslen.symm)
  rw [List.nil_append] at hout
  refine ⟨out, ?_, by rw [hbs, hout], by rw [serialize, String.toList_ofList, hout, hlower]⟩
  rw [deserialize, if_neg (not_not_intro h64)]
  exact hfill

/-- **Any other text** is an error, and no panic. -/
theorem deserialize_other {s : String}
    (hother : ¬ (s.toList.length = 64 ∧ ∀ c ∈ s.toList, c ∈ Hex.anyCase)) :
    ∃ e, deserialize s = some (.error e) := by
  rw [deserialize]
  by_cases h64 : Utf8.byteLen s.toList = 64
  · rw [if_neg (not_not_intro h64)]
    refine fill_error (k := 32) (by rw [Utf8.length_encode, h64]) (fun hall ↦ hother ?_)
      (Nat.le_refl 32) .zero
    have hcs := mem_anyCase_of_bytes hall
    exact ⟨(byteLen_digits hcs).symm.trans h64, hcs⟩
  · rw [if_pos h64]
    exact ⟨_, rfl⟩

theorem hexBytes_eq (bytes : Bytes32) : hexBytes bytes = .str (serialize bytes) := rfl

/-- The identity file is read by this codec. -/
theorem hexBytesFromJson_str (s : String) :
    hexBytesFromJson (.str s) =
      match deserialize s with
      | some (.ok bytes) => some bytes
      | _ => none := by
  by_cases hs : s.toList.length = 64 ∧ ∀ c ∈ s.toList, c ∈ Hex.anyCase
  · obtain ⟨bytes, hread, hbytes, -⟩ := deserialize_digits hs.1 hs.2
    have h64 : Utf8.byteLen s.toList = 64 := (byteLen_digits hs.2).trans hs.1
    rw [hread, hexBytesFromJson, if_neg (not_not_intro h64), hbytes, Option.bind_some,
      dif_pos bytes.length_eq]
  · obtain ⟨e, hread⟩ := deserialize_other hs
    rw [hread]
    refine Option.eq_none_iff_forall_ne_some.mpr fun bytes hbytes ↦ hs ?_
    rw [hexBytesFromJson] at hbytes
    split at hbytes
    · cases hbytes
    · rename_i h64
      obtain ⟨bs, hbs, -⟩ := Option.bind_eq_some_iff.mp hbytes
      have hcs := Hex.mem_anyCase_of_toBytes hbs
      exact ⟨(byteLen_digits hcs).symm.trans (not_not.mp h64), hcs⟩

theorem serialize_injective {a b : Bytes32} (h : serialize a = serialize b) : a = b := by
  have hbytes := congrArg Hex.toBytes (String.ofList_injective h)
  rw [Hex.toBytes_ofBytes, Hex.toBytes_ofBytes] at hbytes
  obtain ⟨a, ha⟩ := a
  obtain ⟨b, hb⟩ := b
  obtain rfl : a = b := Option.some.inj hbytes
  rfl

/-- What is written are 64 digits in lower case. -/
theorem serialize_digits (bytes : Bytes32) :
    (serialize bytes).toList.length = 64 ∧ ∀ c ∈ (serialize bytes).toList, c ∈ Hex.digits := by
  rw [serialize, String.toList_ofList, Hex.length_ofBytes, bytes.length_eq]
  exact ⟨rfl, fun c hc ↦ Hex.mem_digits_of_mem_ofBytes hc⟩

/-- **The codec is exact.**  What is written is read back; of all texts those of 64 digits of either
case are accepted and the others are errors, without a panic; and what is accepted is written as its
form in lower case. -/
theorem hexBytes_exact :
    (∀ bytes, deserialize (serialize bytes) = some (.ok bytes)) ∧
      ∀ s : String,
        deserialize s ≠ none ∧
        ((∃ bytes, deserialize s = some (.ok bytes)) ↔
          s.toList.length = 64 ∧ ∀ c ∈ s.toList, c ∈ Hex.anyCase) ∧
        ∀ bytes, deserialize s = some (.ok bytes) →
          (serialize bytes).toList = s.toList.map Char.toLower := by
  refine ⟨fun bytes ↦ ?_, fun s ↦ ?_⟩
  · obtain ⟨hlen, hdigits⟩ := serialize_digits bytes
    obtain ⟨bytes', hread, -, hlower⟩ := deserialize_digits hlen fun c hc ↦
      List.mem_append_left _ (hdigits c hc)
    rw [List.map_congr_left fun c hc ↦ Hex.toLower_of_mem_digits (hdigits c hc), List.map_id']
      at hlower
    rw [hread, serialize_injective (String.toList_injective hlower)]
  · by_cases hs : s.toList.length = 64 ∧ ∀ c ∈ s.toList, c ∈ Hex.anyCase
    · obtain ⟨bytes, hread, -, hlower⟩ := deserialize_digits hs.1 hs.2
      rw [hread]
      refine ⟨nofun, iff_of_true ⟨bytes, rfl⟩ hs, fun bytes' hbytes ↦ ?_⟩
      obtain rfl := Except.ok.inj (Option.some.inj hbytes)
      exact hlower
    · obtain ⟨e, hread⟩ := deserialize_other hs
      rw [hread]
      exact ⟨nofun, iff_of_false nofun hs, nofun⟩

end HexBytes

end Vaiexia.Auth
