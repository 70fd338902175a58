import Vaiexia.Lib.Utf8

/-!
# Byte streams in pieces

A stream brings its bytes in pieces: each `read` returns what is there, and each `write` takes as
much as there is room for.  `readExact` and `writeAll` are the loops of the standard library over
these; the pieces make no difference to what they read and write (`readExact_eq`,
`flatten_of_writeAll`).
-/

namespace Vaiexia.Lib

namespace Stream

/-! ## Reading -/

/-- `Read::read_exact`: so many bytes, and the pieces that were not read.  A piece of no bytes is a
read that was interrupted, and is tried again; there are no more pieces at the end of the stream. -/
def readExact : Nat → List Bytes → Option (Bytes × List Bytes)
  | 0, pieces => some ([], pieces)
  | _ + 1, [] => none
  | n + 1, piece :: pieces =>
      if piece.length ≤ n + 1 then
        (readExact (n + 1 - piece.length) pieces).map fun (bs, left) ↦ (piece ++ bs, left)
      else some (piece.take (n + 1), piece.drop (n + 1) :: pieces)

/-- **However the stream comes**, so many bytes of it are read, and the others are left. -/
theorem readExact_eq {n : Nat} {pieces : List Bytes} (h : n ≤ pieces.flatten.length) :
    ∃ left, readExact n pieces = some (pieces.flatten.take n, left) ∧
      left.flatten = pieces.flatten.drop n := by
  induction pieces generalizing n with
  | nil =>
      obtain rfl := Nat.le_zero.mp h
      exact ⟨[], rfl, rfl⟩
  | cons piece pieces ih =>
      cases n with
      | zero => exact ⟨piece :: pieces, rfl, rfl⟩
      | succ n =>
          rw [List.flatten_cons, List.length_append] at h
          by_cases hle : piece.length ≤ n + 1
          · obtain ⟨left, hread, hleft⟩ := ih (n := n + 1 - piece.length) (by omega)
            refine ⟨left, ?_, ?_⟩
            · rw [readExact, if_pos hle, hread, Option.map_some, List.flatten_cons,
                List.take_append, List.take_of_length_le hle]
            · rw [hleft, List.flatten_cons, List.drop_append, List.drop_eq_nil_of_le hle,
                List.nil_append]
          · refine ⟨piece.drop (n + 1) :: pieces, ?_, ?_⟩
            · rw [readExact, if_neg hle, List.flatten_cons,
                List.take_append_of_le_length (by omega)]
            · rw [List.flatten_cons, List.flatten_cons, List.drop_append_of_le_length (by omega)]

/-- What is not there cannot be read. -/
theorem readExact_eq_none {n : Nat} {pieces : List Bytes} (h : pieces.flatten.length < n) :
    readExact n pieces = none := by
  induction pieces generalizing n with
  | nil =>
      cases n with
      | zero => exact absurd h (Nat.not_lt_zero _)
      | succ n => rfl
  | cons piece pieces ih =>
      rw [List.flatten_cons, List.length_append] at h
      cases n with
      | zero => exact absurd h (Nat.not_lt_zero _)
      | succ n =>
          rw [readExact, if_pos (by omega), ih (by omega)]
          rfl

/-! ## Writing -/

/-- `Write::write_all`: the pieces that the writes took, each as many bytes as its size, and the
sizes of the writes to come.  A write that takes nothing is an error, and so is one that fails,
where there are no more sizes. -/
def writeAll : List Nat → Bytes → Option (List Bytes × List Nat)
  | sizes, [] => some ([], sizes)
  | [], _ :: _ => none
  | 0 :: _, _ :: _ => none
  | (n + 1) :: sizes, b :: bs =>
      (writeAll sizes (bs.drop n)).map fun (pieces, left) ↦ ((b :: bs.take n) :: pieces, left)

/-- Bytes are written if every write takes some and there are enough writes for them, which leaves
the last ones. -/
theorem exists_writeAll {sizes : List Nat} (bs : Bytes) (hpos : ∀ n ∈ sizes, 0 < n)
    (hlen : bs.length ≤ sizes.length) :
    ∃ pieces left, writeAll sizes bs = some (pieces, left) ∧ left <:+ sizes ∧
      sizes.length ≤ left.length + bs.length := by
  induction sizes generalizing bs with
  | nil =>
      obtain rfl := List.length_eq_zero_iff.mp (Nat.le_zero.mp hlen)
      exact ⟨[], [], rfl, List.suffix_refl [], Nat.le_refl 0⟩
  | cons n sizes ih =>
      cases bs with
      | nil => exact ⟨[], n :: sizes, rfl, List.suffix_refl _, Nat.le_refl _⟩
      | cons b bs =>
          obtain ⟨n, rfl⟩ :=
            Nat.exists_eq_succ_of_ne_zero (Nat.ne_of_gt (hpos n List.mem_cons_self))
          rw [List.length_cons, List.length_cons, Nat.add_le_add_iff_right] at hlen
          obtain ⟨pieces, left, hwrite, hleft, hmany⟩ :=
            ih (bs.drop n) (fun m hm ↦ hpos m (List.mem_cons_of_mem _ hm))
              (by rw [List.length_drop]; omega)
          refine ⟨(b :: bs.take n) :: pieces, left, ?_, hleft.trans (List.suffix_cons _ _), ?_⟩
          · rw [writeAll, hwrite, Option.map_some]
          · rw [List.length_drop] at hmany
            simp only [List.length_cons]
            omega

/-- **However the bytes are taken**, they are the bytes that were to be written. -/
theorem flatten_of_writeAll {sizes left : List Nat} {bs : Bytes} {pieces : List Bytes}
    (h : writeAll sizes bs = some (pieces, left)) : pieces.flatten = bs := by
  induction sizes generalizing bs pieces with
  | nil =>
      cases bs with
      | nil =>
          cases h
          rfl
      | cons b bs => cases h
  | cons n sizes ih =>
      cases bs with
      | nil =>
          cases h
          rfl
      | cons b bs =>
          cases n with
          | zero => cases h
          | succ n =>
              obtain ⟨⟨rest, left⟩, hrest, hpieces⟩ := Option.map_eq_some_iff.mp h
              cases hpieces
              rw [List.flatten_cons, ih hrest, List.cons_append, List.take_append_drop]

/-! ## Numbers -/

/-- `u32::to_be_bytes`. -/
def toBeBytes (n : UInt32) : Bytes :=
  [(n >>> 24).toUInt8, (n >>> 16).toUInt8, (n >>> 8).toUInt8, n.toUInt8]

/-- `u32::from_be_bytes`. -/
def ofBeBytes (a b c d : UInt8) : Nat :=
  ((a.toNat * 256 + b.toNat) * 256 + c.toNat) * 256 + d.toNat

/-- Four bytes hold a number of 32 bits. -/
theorem ofBeBytes_toBeBytes (n : UInt32) :
    ofBeBytes (n >>> 24).toUInt8 (n >>> 16).toUInt8 (n >>> 8).toUInt8 n.toUInt8 = n.toNat := by
  have hn := n.toNat_lt
  simp only [ofBeBytes, UInt32.toNat_toUInt8, UInt32.toNat_shiftRight, Nat.shiftRight_eq_div_pow]
  have h24 : (24 : UInt32).toNat % 32 = 24 := rfl
  have h16 : (16 : UInt32).toNat % 32 = 16 := rfl
  have h8 : (8 : UInt32).toNat % 32 = 8 := rfl
  rw [h24, h16, h8]
  omega

end Stream

end Vaiexia.Lib
