import Vaiexia.Lib.Json

/-!
# Byte arrays of 32 bytes and their hexadecimal text
-/

namespace Vaiexia.Lib

/-- `[u8; 32]`. -/
structure Bytes32 where
  bytes : Bytes
  length_eq : bytes.length = 32
deriving DecidableEq

/-- Thirty-two zeros. -/
def Bytes32.zero : Bytes32 where
  bytes := List.replicate 32 0
  length_eq := by decide

namespace Hex

/-- Two lowercase hexadecimal digits: `format!("{b:02x}")`. -/
def ofByte (b : UInt8) : List Char := [Json.hexDigit (b.toNat / 16), Json.hexDigit (b.toNat % 16)]

/-- The hexadecimal text of a byte string. -/
def ofBytes (bs : Bytes) : List Char := bs.flatMap ofByte

@[simp] theorem length_ofBytes (bs : Bytes) : (ofBytes bs).length = 2 * bs.length := by
  induction bs with
  | nil => rfl
  | cons b bs ih =>
      have hcons : ofBytes (b :: bs) = ofByte b ++ ofBytes bs := rfl
      rw [hcons, List.length_append, ih, List.length_cons, ofByte]
      simp only [List.length_cons, List.length_nil]
      omega

/-- The digits of hexadecimal text. -/
def digits : List Char :=
  ['0', '1', '2', '3', '4', '5', '6', '7', '8', '9', 'a', 'b', 'c', 'd', 'e', 'f']

theorem hexDigit_mem_digits {n : Nat} (h : n < 16) : Json.hexDigit n ∈ digits := by
  revert n
  decide

/-- Hexadecimal text has no other characters. -/
theorem mem_digits_of_mem_ofBytes {bs : Bytes} {c : Char} (h : c ∈ ofBytes bs) :
    c ∈ digits := by
  obtain ⟨b, _, hb⟩ := List.mem_flatMap.mp h
  have hlt : b.toNat / 16 < 16 := by have := b.toNat_lt; omega
  have hmod : b.toNat % 16 < 16 := Nat.mod_lt _ (by decide)
  rcases List.mem_pair.mp hb with rfl | rfl
  · exact hexDigit_mem_digits hlt
  · exact hexDigit_mem_digits hmod

/-- A digit stands for itself in a JSON string, as one byte. -/
theorem plain_of_mem_digits {c : Char} (h : c ∈ digits) :
    Json.escapeChar c = [c] ∧ c.utf8Size = 1 ∧ 0x20 ≤ c.toNat := by
  have hall : (digits.all fun c ↦
      decide (Json.escapeChar c = [c] ∧ c.utf8Size = 1 ∧ 0x20 ≤ c.toNat)) = true := by decide
  exact of_decide_eq_true (List.all_eq_true.mp hall c h)

/-! ## Reading hexadecimal text -/

/-- The value of a hexadecimal digit, in either case. -/
def nibble (c : Char) : Option Nat :=
  if '0' ≤ c ∧ c ≤ '9' then some (c.toNat - '0'.toNat)
  else if 'a' ≤ c ∧ c ≤ 'f' then some (c.toNat - 'a'.toNat + 10)
  else if 'A' ≤ c ∧ c ≤ 'F' then some (c.toNat - 'A'.toNat + 10)
  else none

/-- The bytes of a hexadecimal text, two digits each. -/
def toBytes : List Char → Option Bytes
  | [] => some []
  | [_] => none
  | a :: b :: cs => do
      let hi ← nibble a
      let lo ← nibble b
      let rest ← toBytes cs
      some (UInt8.ofNat (hi * 16 + lo) :: rest)

theorem nibble_hexDigit {n : Nat} (h : n < 16) : nibble (Json.hexDigit n) = some n := by
  revert n
  decide

/-- Reading gives back what was written. -/
@[simp] theorem toBytes_ofBytes (bs : Bytes) : toBytes (ofBytes bs) = some bs := by
  induction bs with
  | nil => rfl
  | cons b bs ih =>
      have hlt : b.toNat / 16 < 16 := by have := b.toNat_lt; omega
      have hmod : b.toNat % 16 < 16 := Nat.mod_lt _ (by decide)
      have hb : b.toNat / 16 * 16 + b.toNat % 16 = b.toNat := by omega
      have hcons : ofBytes (b :: bs) = ofByte b ++ ofBytes bs := rfl
      simp only [hcons, ofByte, List.cons_append, List.nil_append, toBytes, nibble_hexDigit hlt,
        nibble_hexDigit hmod, ih, Option.bind_eq_bind, Option.bind_some, hb]
      rw [UInt8.ofNat_toNat]

/-! ## Digits of either case -/

/-- The hexadecimal digits, with upper-case letters too. -/
def anyCase : List Char := digits ++ ['A', 'B', 'C', 'D', 'E', 'F']

/-- The value of a digit, which has the digit in lower case. -/
theorem exists_nibble {c : Char} (h : c ∈ anyCase) :
    ∃ n < 16, nibble c = some n ∧ Json.hexDigit n = c.toLower := by
  have hall : (anyCase.all fun c ↦ (nibble c).any fun n ↦
      decide (n < 16) && Json.hexDigit n == c.toLower) = true := by decide
  have hc := List.all_eq_true.mp hall c h
  cases hn : nibble c with
  | none =>
      rw [hn] at hc
      cases hc
  | some n =>
      rw [hn, Option.any_some, Bool.and_eq_true, decide_eq_true_iff, beq_iff_eq] at hc
      exact ⟨n, hc.1, rfl, hc.2⟩

/-- Only digits have a value. -/
theorem mem_anyCase_of_nibble {c : Char} {n : Nat} (h : nibble c = some n) : c ∈ anyCase := by
  have hascii : c.toNat < 128 := by
    have hle : ∀ d : Char, d.toNat < 128 → c ≤ d → c.toNat < 128 := fun d hd hcd ↦
      Nat.lt_of_le_of_lt (Char.le_def.mp hcd) hd
    rw [nibble] at h
    split at h
    · rename_i hc
      exact hle '9' (by decide) hc.2
    · split at h
      · rename_i hc
        exact hle 'f' (by decide) hc.2
      · split at h
        · rename_i hc
          exact hle 'F' (by decide) hc.2
        · cases h
  have hall : ((List.range 128).all fun m ↦
      (nibble (Char.ofNat m)).isNone || decide (Char.ofNat m ∈ anyCase)) = true := by decide +kernel
  have hc := List.all_eq_true.mp hall c.toNat (List.mem_range.mpr hascii)
  rw [Char.ofNat_toNat, h, Option.isNone_some, Bool.false_or, decide_eq_true_iff] at hc
  exact hc

/-- Only texts of digits are read. -/
theorem mem_anyCase_of_toBytes {cs : List Char} {bs : Bytes} (h : toBytes cs = some bs) :
    ∀ c ∈ cs, c ∈ anyCase := by
  induction cs using toBytes.induct generalizing bs with
  | case1 => exact nofun
  | case2 => cases h
  | case3 a b cs ih =>
      obtain ⟨hi, ha, h⟩ := Option.bind_eq_some_iff.mp h
      obtain ⟨lo, hb, h⟩ := Option.bind_eq_some_iff.mp h
      obtain ⟨rest, hrest, -⟩ := Option.bind_eq_some_iff.mp h
      exact List.forall_mem_cons.mpr ⟨mem_anyCase_of_nibble ha,
        List.forall_mem_cons.mpr ⟨mem_anyCase_of_nibble hb, ih hrest⟩⟩

theorem toLower_of_mem_digits {c : Char} (h : c ∈ digits) : c.toLower = c := by
  have hall : (digits.all fun c ↦ c.toLower == c) = true := by decide
  exact beq_iff_eq.mp (List.all_eq_true.mp hall c h)

/-- The two digits of a byte that two digits make. -/
theorem ofByte_ofNat {hi lo : Nat} (hhi : hi < 16) (hlo : lo < 16) :
    ofByte (UInt8.ofNat (hi * 16 + lo)) = [Json.hexDigit hi, Json.hexDigit lo] := by
  have hlt : hi * 16 + lo < 2 ^ 8 := by omega
  have hdiv : (hi * 16 + lo) / 16 = hi := by omega
  have hmod : (hi * 16 + lo) % 16 = lo := by omega
  rw [ofByte, UInt8.toNat_ofNat_of_lt' hlt, hdiv, hmod]

/-- **Reading digits of either case** gives the bytes that are written as these digits in lower
case. -/
theorem exists_toBytes {k : Nat} {cs : List Char} (hlen : cs.length = 2 * k)
    (hcs : ∀ c ∈ cs, c ∈ anyCase) :
    ∃ bs, toBytes cs = some bs ∧ bs.length = k ∧ ofBytes bs = cs.map Char.toLower := by
  induction k generalizing cs with
  | zero =>
      obtain rfl := List.length_eq_zero_iff.mp hlen
      exact ⟨[], rfl, rfl, rfl⟩
  | succ k ih =>
      match cs, hlen with
      | a :: b :: cs, hlen =>
          rw [List.length_cons, List.length_cons] at hlen
          obtain ⟨hi, hhi, ha, hdigit⟩ := exists_nibble (hcs a List.mem_cons_self)
          obtain ⟨lo, hlo, hb, hdigit'⟩ :=
            exists_nibble (hcs b (List.mem_cons_of_mem a List.mem_cons_self))
          obtain ⟨bs, hbs, hbslen, hlower⟩ := @ih cs (by omega) fun c hc ↦
            hcs c (List.mem_cons_of_mem a (List.mem_cons_of_mem b hc))
          refine ⟨UInt8.ofNat (hi * 16 + lo) :: bs, ?_, by rw [List.length_cons, hbslen], ?_⟩
          · simp only [toBytes, ha, hb, hbs, Option.bind_eq_bind, Option.bind_some]
          · have hcons : ofBytes (UInt8.ofNat (hi * 16 + lo) :: bs) =
                ofByte (UInt8.ofNat (hi * 16 + lo)) ++ ofBytes bs := rfl
            rw [hcons, ofByte_ofNat hhi hlo, hlower, hdigit, hdigit', List.map_cons, List.map_cons]
            rfl

end Hex

end Vaiexia.Lib
