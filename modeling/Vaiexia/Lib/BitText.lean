import Mathlib.Data.List.GetD
import Vaiexia.Lib.Utf8

/-!
# Bytes as text, so many bits a character

The encodings of RFC 4648 without padding.  The bits of a byte string, the most significant first,
are cut into groups of `k`, the last one filled up with zeros, and every group is a character of an
alphabet.  Decoding takes no group that holds nothing but filling, and no filling but zeros; so
that it accepts what encoding gives and nothing else.
-/

namespace Vaiexia.Lib.BitText

/-! ## Bits -/

/-- The lowest `w` bits of a number, the most significant first. -/
def bits : Nat → Nat → List Bool
  | 0, _ => []
  | w + 1, n => decide (2 ^ w ≤ n) :: bits w (n % 2 ^ w)

/-- The number that has these bits. -/
def ofBits : List Bool → Nat
  | [] => 0
  | b :: bs => b.toNat * 2 ^ bs.length + ofBits bs

@[simp] theorem length_bits (w n : Nat) : (bits w n).length = w := by
  induction w generalizing n with
  | zero => rfl
  | succ w ih => rw [bits, List.length_cons, ih]

theorem ofBits_lt (bs : List Bool) : ofBits bs < 2 ^ bs.length := by
  induction bs with
  | nil => exact Nat.one_pos
  | cons b bs ih =>
      rw [ofBits, List.length_cons, Nat.pow_succ]
      have hb : b.toNat ≤ 1 := Bool.toNat_le b
      have hle : b.toNat * 2 ^ bs.length ≤ 1 * 2 ^ bs.length := Nat.mul_le_mul_right _ hb
      omega

/-- A number is that of its bits. -/
theorem ofBits_bits {w n : Nat} (h : n < 2 ^ w) : ofBits (bits w n) = n := by
  induction w generalizing n with
  | zero => exact (Nat.lt_one_iff.mp h).symm
  | succ w ih =>
      have hpos : 0 < 2 ^ w := Nat.two_pow_pos w
      rw [bits, ofBits, length_bits, ih (Nat.mod_lt _ hpos)]
      rw [Nat.pow_succ] at h
      by_cases hle : 2 ^ w ≤ n
      · have hmod : n % 2 ^ w = n - 2 ^ w := by
          rw [Nat.mod_eq_sub_mod hle, Nat.mod_eq_of_lt (by omega)]
        rw [decide_eq_true hle, hmod, Bool.toNat_true]
        omega
      · rw [decide_eq_false hle, Nat.mod_eq_of_lt (Nat.lt_of_not_le hle), Bool.toNat_false]
        omega

/-- And bits are those of their number. -/
theorem bits_ofBits (bs : List Bool) : bits bs.length (ofBits bs) = bs := by
  induction bs with
  | nil => rfl
  | cons b bs ih =>
      have hlt := ofBits_lt bs
      rw [List.length_cons, bits, ofBits]
      cases b with
      | true =>
          rw [Bool.toNat_true, Nat.one_mul, decide_eq_true (Nat.le_add_right _ _),
            Nat.add_mod_left, Nat.mod_eq_of_lt hlt, ih]
      | false =>
          rw [Bool.toNat_false, Nat.zero_mul, Nat.zero_add,
            decide_eq_false (Nat.not_le_of_lt hlt), Nat.mod_eq_of_lt hlt, ih]

/-! ## Groups -/

section Groups

variable {α : Type} {w n : Nat}

/-- The first `n` groups of `w` elements. -/
def groups (w : Nat) : Nat → List α → List (List α)
  | 0, _ => []
  | n + 1, xs => xs.take w :: groups w n (xs.drop w)

@[simp] theorem length_groups (w n : Nat) (xs : List α) : (groups w n xs).length = n := by
  induction n generalizing xs with
  | zero => rfl
  | succ n ih => rw [groups, List.length_cons, ih]

/-- Groups of equal length are the groups of what they make together. -/
theorem groups_flatten {gs : List (List α)} (h : ∀ g ∈ gs, g.length = w) (rest : List α) :
    groups w gs.length (gs.flatten ++ rest) = gs := by
  induction gs with
  | nil => rfl
  | cons g gs ih =>
      have hg : g.length = w := h g List.mem_cons_self
      rw [List.length_cons, groups, List.flatten_cons, List.append_assoc, ← hg,
        List.take_left, List.drop_left, hg, ih fun g' hg' ↦ h g' (List.mem_cons_of_mem g hg')]

theorem length_flatten_of_forall {gs : List (List α)} (h : ∀ g ∈ gs, g.length = w) :
    gs.flatten.length = gs.length * w := by
  induction gs with
  | nil => rw [List.length_nil, Nat.zero_mul]; rfl
  | cons g gs ih =>
      rw [List.flatten_cons, List.length_append, h g List.mem_cons_self,
        ih fun g' hg' ↦ h g' (List.mem_cons_of_mem g hg'), List.length_cons, Nat.succ_mul,
        Nat.add_comm]

/-- As many groups as there are elements for make up what they were cut from. -/
theorem flatten_groups {xs : List α} (h : n * w ≤ xs.length) :
    (groups w n xs).flatten = xs.take (n * w) := by
  induction n generalizing xs with
  | zero => rw [Nat.zero_mul, List.take_zero]; rfl
  | succ n ih =>
      rw [Nat.succ_mul] at h
      have hrest : n * w ≤ (xs.drop w).length := by
        rw [List.length_drop]
        omega
      rw [groups, List.flatten_cons, ih hrest, Nat.succ_mul, Nat.add_comm (n * w), List.take_add]

theorem length_of_mem_groups {xs g : List α} (h : n * w ≤ xs.length) (hg : g ∈ groups w n xs) :
    g.length = w := by
  induction n generalizing xs with
  | zero => cases hg
  | succ n ih =>
      rw [Nat.succ_mul] at h
      rcases List.mem_cons.mp hg with rfl | hg
      · rw [List.length_take]
        omega
      · refine ih ?_ hg
        rw [List.length_drop]
        omega

end Groups

/-! ## Alphabets -/

/-- `2 ^ k` characters. -/
structure Alphabet (k : Nat) where
  chars : List Char
  length_eq : chars.length = 2 ^ k
  nodup : chars.Nodup

namespace Alphabet

variable {k : Nat} (A : Alphabet k)

/-- The character of a number. -/
def char (n : Nat) : Char := A.chars.getD n 'A'

/-- The number of a character. -/
def index (c : Char) : Option Nat :=
  if c ∈ A.chars then some (A.chars.idxOf c) else none

variable {A}

theorem char_mem {n : Nat} (h : n < 2 ^ k) : A.char n ∈ A.chars := by
  rw [char, List.getD_eq_getElem _ _ (A.length_eq ▸ h)]
  exact List.getElem_mem _

theorem index_char {n : Nat} (h : n < 2 ^ k) : A.index (A.char n) = some n := by
  have hlt : n < A.chars.length := A.length_eq ▸ h
  rw [index, if_pos (char_mem h), char, List.getD_eq_getElem _ _ hlt,
    A.nodup.idxOf_getElem n hlt]

theorem index_eq_some {c : Char} {n : Nat} (h : A.index c = some n) :
    n < 2 ^ k ∧ A.char n = c := by
  unfold index at h
  split at h
  · rename_i hc
    obtain rfl := Option.some.inj h
    have hlt := List.idxOf_lt_length_of_mem hc
    rw [char, List.getD_eq_getElem _ _ hlt, List.getElem_idxOf hlt]
    exact ⟨A.length_eq ▸ hlt, rfl⟩
  · cases h

/-- The numbers of a text of characters. -/
theorem mapM_index_map {digits : List Nat} (h : ∀ n ∈ digits, n < 2 ^ k) :
    (digits.map A.char).mapM A.index = some digits := by
  induction digits with
  | nil => rfl
  | cons n digits ih =>
      rw [List.map_cons, List.mapM_cons, index_char (h n List.mem_cons_self),
        ih fun m hm ↦ h m (List.mem_cons_of_mem n hm)]
      rfl

theorem of_mapM_index {text : List Char} {digits : List Nat}
    (h : text.mapM A.index = some digits) :
    (∀ n ∈ digits, n < 2 ^ k) ∧ text = digits.map A.char := by
  induction text generalizing digits with
  | nil =>
      obtain rfl := Option.some.inj h
      exact ⟨(fun _ hn ↦ nomatch hn), rfl⟩
  | cons c text ih =>
      rw [List.mapM_cons] at h
      obtain ⟨n, hn, h⟩ := Option.bind_eq_some_iff.mp h
      obtain ⟨rest, hrest, h⟩ := Option.bind_eq_some_iff.mp h
      obtain rfl := Option.some.inj h
      obtain ⟨hlt, hchar⟩ := index_eq_some hn
      obtain ⟨hall, htext⟩ := ih hrest
      refine ⟨fun m hm ↦ ?_, by rw [List.map_cons, hchar, ← htext]⟩
      rcases List.mem_cons.mp hm with rfl | hm
      · exact hlt
      · exact hall m hm

end Alphabet

/-! ## Encoding and decoding -/

/-- The bits of a byte string. -/
def ofBytes (bytes : Bytes) : List Bool := (bytes.map fun b ↦ bits 8 b.toNat).flatten

/-- The first `n` bytes that the bits make up. -/
def toBytes (n : Nat) (xs : List Bool) : Bytes :=
  (groups 8 n xs).map fun g ↦ UInt8.ofNat (ofBits g)

theorem length_of_mem_bytes (bytes : Bytes) :
    ∀ g ∈ bytes.map (fun b ↦ bits 8 b.toNat), g.length = 8 := by
  intro g hg
  obtain ⟨b, -, rfl⟩ := List.mem_map.mp hg
  exact length_bits 8 _

@[simp] theorem length_ofBytes (bytes : Bytes) : (ofBytes bytes).length = 8 * bytes.length := by
  rw [ofBytes, length_flatten_of_forall (length_of_mem_bytes bytes), List.length_map,
    Nat.mul_comm]

@[simp] theorem length_toBytes (n : Nat) (xs : List Bool) : (toBytes n xs).length = n := by
  rw [toBytes, List.length_map, length_groups]

/-- Bytes are those of their bits. -/
theorem toBytes_ofBytes (bytes : Bytes) (rest : List Bool) :
    toBytes bytes.length (ofBytes bytes ++ rest) = bytes := by
  have hgroups : groups 8 bytes.length (ofBytes bytes ++ rest)
      = bytes.map fun b ↦ bits 8 b.toNat := by
    have h := groups_flatten (length_of_mem_bytes bytes) rest
    rwa [List.length_map] at h
  rw [toBytes, hgroups, List.map_map]
  conv_rhs => rw [← List.map_id bytes]
  refine List.map_congr_left fun b _ ↦ ?_
  rw [Function.comp_apply, ofBits_bits b.toNat_lt]
  exact UInt8.ofNat_toNat

/-- And bits are those of their bytes. -/
theorem ofBytes_toBytes {n : Nat} {xs : List Bool} (h : n * 8 ≤ xs.length) :
    ofBytes (toBytes n xs) = xs.take (n * 8) := by
  rw [← flatten_groups h, ofBytes, toBytes, List.map_map]
  congr 1
  conv_rhs => rw [← List.map_id (groups 8 n xs)]
  refine List.map_congr_left fun g hg ↦ ?_
  have hlen : g.length = 8 := length_of_mem_groups h hg
  have hlt : ofBits g < 2 ^ 8 := hlen ▸ ofBits_lt g
  rw [Function.comp_apply, UInt8.toNat_ofNat_of_lt' hlt, ← hlen]
  exact bits_ofBits g

section Codec

variable {k : Nat}

/-- How many characters so many bits take. -/
def digitCount (k length : Nat) : Nat := (length + k - 1) / k

/-- As many as hold them, and not more. -/
theorem digitCount_eq_iff {length n : Nat} (hk : 0 < k) :
    digitCount k length = n ↔ length ≤ n * k ∧ n * k < length + k := by
  rw [digitCount, Nat.div_eq_iff hk]
  constructor
  · rintro ⟨hle, hlt⟩
    omega
  · rintro ⟨hle, hlt⟩
    omega

theorem digitCount_spec (hk : 0 < k) (length : Nat) :
    length ≤ digitCount k length * k ∧ digitCount k length * k < length + k :=
  (digitCount_eq_iff hk).mp rfl

/-- The bits, filled up to whole characters. -/
def fill (k : Nat) (xs : List Bool) : List Bool :=
  xs ++ List.replicate (digitCount k xs.length * k - xs.length) false

/-- The text of a byte string. -/
def encode (A : Alphabet k) (bytes : Bytes) : List Char :=
  ((groups k (digitCount k (8 * bytes.length)) (fill k (ofBytes bytes))).map ofBits).map A.char

/-- The byte string of a text. -/
def decode (A : Alphabet k) (text : List Char) : Option Bytes :=
  match text.mapM A.index with
  | none => none
  | some digits =>
      let xs := (digits.map (bits k)).flatten
      let rest := xs.drop (xs.length / 8 * 8)
      if rest.length < k && rest.all (· == false) then some (toBytes (xs.length / 8) xs) else none

/-- As many characters as the bits take. -/
@[simp] theorem length_encode (A : Alphabet k) (bytes : Bytes) :
    (encode A bytes).length = digitCount k (8 * bytes.length) := by simp [encode]

variable {A : Alphabet k}

theorem length_fill (hk : 0 < k) (xs : List Bool) :
    (fill k xs).length = digitCount k xs.length * k := by
  have hcount := digitCount_spec hk xs.length
  rw [fill, List.length_append, List.length_replicate]
  omega

/-- The groups of the filled bits are the digits of the text. -/
theorem digits_lt (hk : 0 < k) (xs : List Bool) :
    ∀ d ∈ (groups k (digitCount k xs.length) (fill k xs)).map ofBits, d < 2 ^ k := by
  intro d hd
  obtain ⟨g, hg, rfl⟩ := List.mem_map.mp hd
  have hlen : g.length = k := length_of_mem_groups (Nat.le_of_eq (length_fill hk xs).symm) hg
  exact hlen ▸ ofBits_lt g

/-- An encoding has no other characters than those of the alphabet. -/
theorem mem_chars_of_mem_encode (hk : 0 < k) {bytes : Bytes} {c : Char}
    (hc : c ∈ encode A bytes) : c ∈ A.chars := by
  obtain ⟨d, hd, rfl⟩ := List.mem_map.mp hc
  rw [← length_ofBytes] at hd
  exact Alphabet.char_mem (digits_lt hk _ d hd)

/-- The bits of the digits are the filled bits. -/
theorem flatten_digits (hk : 0 < k) (xs : List Bool) :
    (((groups k (digitCount k xs.length) (fill k xs)).map ofBits).map (bits k)).flatten
      = fill k xs := by
  have hle : digitCount k xs.length * k ≤ (fill k xs).length :=
    Nat.le_of_eq (length_fill hk xs).symm
  have hsame : ((groups k (digitCount k xs.length) (fill k xs)).map ofBits).map (bits k)
      = groups k (digitCount k xs.length) (fill k xs) := by
    rw [List.map_map]
    conv_rhs => rw [← List.map_id (groups k (digitCount k xs.length) (fill k xs))]
    refine List.map_congr_left fun g hg ↦ ?_
    have hlen : g.length = k := length_of_mem_groups hle hg
    rw [Function.comp_apply, ← hlen]
    exact bits_ofBits g
  rw [hsame, flatten_groups hle, ← length_fill hk, List.take_length]

/-- **Decoding undoes encoding**, when no character has more bits than a byte. -/
theorem decode_encode (hk : 0 < k) (hk8 : k ≤ 8) (bytes : Bytes) :
    decode A (encode A bytes) = some bytes := by
  have hlen := length_ofBytes bytes
  have hcount := digitCount_spec hk (ofBytes bytes).length
  rw [decode, encode, ← hlen, Alphabet.mapM_index_map (digits_lt hk _)]
  dsimp only
  rw [flatten_digits hk]
  have hdiv : (fill k (ofBytes bytes)).length / 8 = bytes.length := by
    rw [length_fill hk]
    omega
  have hrest : (fill k (ofBytes bytes)).drop (bytes.length * 8)
      = List.replicate (digitCount k (ofBytes bytes).length * k - (ofBytes bytes).length)
        false := by
    rw [fill, Nat.mul_comm, ← hlen, List.drop_left]
  rw [hdiv, hrest, List.length_replicate, if_pos, fill, toBytes_ofBytes]
  rw [Bool.and_eq_true, decide_eq_true_iff, List.all_eq_true]
  refine ⟨by omega, fun b hb ↦ ?_⟩
  rw [List.eq_of_mem_replicate hb]
  rfl

/-- **Encoding undoes decoding**: no two texts decode to the same bytes. -/
theorem encode_of_decode (hk : 0 < k) {text : List Char} {bytes : Bytes}
    (h : decode A text = some bytes) : encode A bytes = text := by
  unfold decode at h
  split at h
  · cases h
  · rename_i digits hdigits
    obtain ⟨hlt, rfl⟩ := Alphabet.of_mapM_index hdigits
    have hgroups : ∀ g ∈ digits.map (bits k), g.length = k := by
      intro g hg
      obtain ⟨d, -, rfl⟩ := List.mem_map.mp hg
      exact length_bits k d
    have hflatten := groups_flatten hgroups []
    have hlen := length_flatten_of_forall hgroups
    rw [List.append_nil] at hflatten
    rw [List.length_map] at hflatten hlen
    generalize (digits.map (bits k)).flatten = xs at h hflatten hlen
    dsimp only at h
    split at h
    · rename_i hcond
      rw [Bool.and_eq_true, decide_eq_true_iff, List.all_eq_true, List.length_drop] at hcond
      obtain ⟨hshort, hzeros⟩ := hcond
      obtain rfl := Option.some.inj h
      have hle : xs.length / 8 * 8 ≤ xs.length := Nat.div_mul_le_self _ _
      have hcount : digitCount k (8 * (xs.length / 8)) = digits.length := by
        rw [digitCount_eq_iff hk, Nat.mul_comm 8]
        omega
      -- what was left over is what encoding fills up with
      have hfill : fill k (xs.take (xs.length / 8 * 8)) = xs := by
        have hrest : xs.drop (xs.length / 8 * 8)
            = List.replicate (digits.length * k - xs.length / 8 * 8) false := by
          refine List.eq_replicate_iff.mpr ⟨by rw [List.length_drop, hlen], fun b hb ↦ ?_⟩
          simpa using hzeros b hb
        rw [fill, List.length_take, Nat.min_eq_left hle, Nat.mul_comm (xs.length / 8) 8, hcount,
          Nat.mul_comm 8, ← hrest, List.take_append_drop]
      have hdigits : (digits.map (bits k)).map ofBits = digits := by
        rw [List.map_map]
        conv_rhs => rw [← List.map_id digits]
        exact List.map_congr_left fun d hd ↦ ofBits_bits (hlt d hd)
      rw [encode, length_toBytes, hcount, ofBytes_toBytes hle, hfill, hflatten, hdigits]
    · cases h

end Codec

/-! ## The alphabets of RFC 4648 -/

/-- Base 32, in lower case. -/
def base32Lower : Alphabet 5 where
  chars := "abcdefghijklmnopqrstuvwxyz234567".toList
  length_eq := by decide
  nodup := by decide

/-- Base 64, for URLs. -/
def base64Url : Alphabet 6 where
  chars := "ABCDEFGHIJKLMNOPQRSTUVWXYZabcdefghijklmnopqrstuvwxyz0123456789-_".toList
  length_eq := by decide
  nodup := by decide +kernel

example : encode base64Url [0x66, 0x6f, 0x6f, 0x62] = "Zm9vYg".toList := by decide

end Vaiexia.Lib.BitText
