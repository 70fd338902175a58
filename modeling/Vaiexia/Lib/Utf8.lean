import Mathlib.Algebra.Ring.Nat
import Mathlib.Data.List.Basic

/-!
# UTF-8 on lists

A file is a list of bytes and a text is a list of characters.  This file relates the two:
`encode` is the byte sequence of a text and `decode` the text of a byte sequence, when it has
one.  Both are the standard library's own encoder and decoder, re-presented on lists.

The fact needed about *cutting* a file is `decode_drop_encode_iff`: what is left of an encoded
text after its first `k` bytes decodes exactly when `k` lies between two characters, and then to
the characters after the cut.
-/

namespace Vaiexia.Lib

/-- A byte string. -/
abbrev Bytes := List UInt8

namespace Utf8

/-- The bytes of a text. -/
def encode (cs : List Char) : Bytes := cs.flatMap String.utf8EncodeChar

/-- The text of a byte string, `none` when the bytes are not valid UTF-8. -/
def decode (bs : Bytes) : Option (List Char) := bs.toByteArray.utf8Decode?.map Array.toList

/-- The length of a text in bytes. -/
def byteLen (cs : List Char) : Nat := (cs.map Char.utf8Size).sum

@[simp] theorem encode_nil : encode [] = [] := rfl

@[simp] theorem encode_append (a b : List Char) : encode (a ++ b) = encode a ++ encode b :=
  List.flatMap_append

@[simp] theorem encode_cons (c : Char) (cs : List Char) :
    encode (c :: cs) = String.utf8EncodeChar c ++ encode cs := List.flatMap_cons

theorem toByteArray_encode (cs : List Char) : (encode cs).toByteArray = cs.utf8Encode := rfl

@[simp] theorem byteLen_nil : byteLen [] = 0 := rfl

@[simp] theorem byteLen_cons (c : Char) (cs : List Char) :
    byteLen (c :: cs) = c.utf8Size + byteLen cs := by simp [byteLen]

@[simp] theorem byteLen_append (a b : List Char) : byteLen (a ++ b) = byteLen a + byteLen b := by
  simp [byteLen]

@[simp] theorem byteLen_replicate (n : Nat) (c : Char) :
    byteLen (List.replicate n c) = n * c.utf8Size := by simp [byteLen]

@[simp] theorem length_encode (cs : List Char) : (encode cs).length = byteLen cs := by
  induction cs with
  | nil => rfl
  | cons c cs ih => simp [ih]

/-- No text has more bytes than four times its characters. -/
theorem byteLen_le (cs : List Char) : byteLen cs ≤ 4 * cs.length := by
  induction cs with
  | nil => simp
  | cons c cs ih =>
      have hc := c.utf8Size_le_four
      simp only [byteLen_cons, List.length_cons]
      omega

/-- And no less than its characters. -/
theorem length_le_byteLen (cs : List Char) : cs.length ≤ byteLen cs := by
  induction cs with
  | nil => exact Nat.le_refl _
  | cons c cs ih =>
      have hpos := c.utf8Size_pos
      rw [List.length_cons, byteLen_cons]
      omega

/-- A text of one-byte characters is as long in bytes as in characters. -/
theorem byteLen_eq_length {cs : List Char} (h : ∀ c ∈ cs, c.utf8Size = 1) :
    byteLen cs = cs.length := by
  induction cs with
  | nil => rfl
  | cons c cs ih =>
      have hc : c.utf8Size = 1 := h c (by simp)
      have hcs : byteLen cs = cs.length := ih fun d hd ↦ h d (by simp [hd])
      simp only [byteLen_cons, List.length_cons]
      omega

/-- Decoding undoes encoding. -/
@[simp] theorem decode_encode (cs : List Char) : decode (encode cs) = some cs := by
  simp [decode, toByteArray_encode]

theorem encode_injective : Function.Injective encode := by
  intro a b h
  have h' : decode (encode a) = decode (encode b) := by rw [h]
  simpa using h'

/-- What decodes to a text is the encoding of that text. -/
theorem decode_eq_some_iff {bs : Bytes} {cs : List Char} :
    decode bs = some cs ↔ bs = encode cs := by
  constructor
  · intro h
    obtain ⟨arr, harr, rfl⟩ := Option.map_eq_some_iff.mp h
    have hs : bs.toByteArray.utf8Decode?.isSome := by rw [harr]; rfl
    have hget : (bs.toByteArray.utf8Decode?.get hs).toList.utf8Encode = bs.toByteArray :=
      ByteArray.utf8Encode_get_utf8Decode?
    have harr' : bs.toByteArray.utf8Decode?.get hs = arr := by simp [harr]
    rw [harr', ← toByteArray_encode] at hget
    exact (List.toByteArray_inj.mp hget).symm
  · rintro rfl
    exact decode_encode cs

/-- A byte offset that lies between two characters of a text. -/
def IsBoundary (cs : List Char) (k : Nat) : Prop := ∃ a b, cs = a ++ b ∧ byteLen a = k

/-- The encoding of `cs` from byte `k` on is valid UTF-8 only if `k` is a boundary. -/
theorem isBoundary_of_encode_eq_drop {cs b : List Char} {k : Nat} (hk : k ≤ byteLen cs)
    (h : encode b = (encode cs).drop k) : ∃ a, cs = a ++ b ∧ byteLen a = k := by
  have hsize : (String.ofList cs).utf8ByteSize = byteLen cs := by
    rw [← String.size_toByteArray, String.toByteArray_ofList, ← toByteArray_encode,
      List.size_toByteArray, length_encode]
  have hext : (String.ofList cs).toByteArray.extract k (String.ofList cs).utf8ByteSize
      = b.utf8Encode := by
    have hlen : (encode cs).length - k = ((encode cs).drop k).length := by simp
    apply ByteArray.ext
    rw [hsize, String.toByteArray_ofList, ← toByteArray_encode, ← toByteArray_encode, h,
      ByteArray.data_extract, List.data_toByteArray, List.data_toByteArray,
      List.extract_toArray, List.extract_eq_take_drop, ← length_encode, hlen, List.take_length]
  have hvalid : String.Pos.Raw.IsValid (String.ofList cs) ⟨k⟩ := by
    rw [String.Pos.Raw.isValid_iff_isValidUTF8_extract_utf8ByteSize]
    refine ⟨?_, ?_⟩
    · rw [String.Pos.Raw.le_iff, String.byteIdx_rawEndPos, hsize]
      exact hk
    · rw [hext]
      exact ByteArray.isValidUTF8_utf8Encode
  obtain ⟨s₁, s₂, happ, hpos⟩ := String.Pos.Raw.isValid_iff_exists_append.mp hvalid
  have hcs : cs = s₁.toList ++ s₂.toList := by
    have h' := congrArg String.toList happ
    simpa using h'
  have hk' : byteLen s₁.toList = k := by
    have h' := congrArg String.Pos.Raw.byteIdx hpos
    rw [String.byteIdx_rawEndPos, ← String.size_toByteArray] at h'
    have h'' : s₁.toByteArray = (encode s₁.toList).toByteArray := by
      rw [toByteArray_encode, ← String.toByteArray_ofList, String.ofList_toList]
    rw [h'', List.size_toByteArray, length_encode] at h'
    exact h'.symm
  have hb : b = s₂.toList := by
    apply encode_injective
    rw [h, hcs, encode_append, ← hk', ← length_encode, List.drop_left]
  exact ⟨s₁.toList, by rw [hb]; exact hcs, hk'⟩

/-- **Cutting an encoded text.**  The bytes from offset `k` on decode to `b` exactly when the
text splits into `k` bytes followed by `b`. -/
theorem decode_drop_encode_iff {cs b : List Char} {k : Nat} (hk : k ≤ byteLen cs) :
    decode ((encode cs).drop k) = some b ↔ ∃ a, cs = a ++ b ∧ byteLen a = k := by
  rw [decode_eq_some_iff]
  constructor
  · intro h
    exact isBoundary_of_encode_eq_drop hk h.symm
  · rintro ⟨a, rfl, rfl⟩
    rw [encode_append, ← length_encode, List.drop_left]

/-- The bytes from offset `k` on are valid UTF-8 exactly when `k` is a boundary. -/
theorem isSome_decode_drop_encode_iff {cs : List Char} {k : Nat} (hk : k ≤ byteLen cs) :
    (decode ((encode cs).drop k)).isSome ↔ IsBoundary cs k := by
  rw [Option.isSome_iff_exists]
  constructor
  · rintro ⟨b, hb⟩
    obtain ⟨a, hab, ha⟩ := (decode_drop_encode_iff hk).mp hb
    exact ⟨a, b, hab, ha⟩
  · rintro ⟨a, b, hab, ha⟩
    exact ⟨b, (decode_drop_encode_iff hk).mpr ⟨a, hab, ha⟩⟩

/-- An offset inside a run of one character of several bytes is no boundary unless it is a
multiple of that character's size into the run. -/
theorem not_isBoundary_replicate {c : Char} {a b : List Char} {n q r : Nat}
    (hq : q < n) (hr : 0 < r) (hrc : r < c.utf8Size) :
    ¬ IsBoundary (a ++ (List.replicate n c ++ b)) (byteLen a + (q * c.utf8Size + r)) := by
  rintro ⟨x, y, hxy, hlen⟩
  induction a generalizing x with
  | cons d a ih =>
      cases x with
      | nil => simp at hlen; omega
      | cons e x =>
          simp only [List.cons_append, List.cons.injEq] at hxy
          obtain ⟨rfl, hxy⟩ := hxy
          exact ih x hxy (by simp only [byteLen_cons] at hlen; omega)
  | nil =>
      induction n generalizing q x with
      | zero => omega
      | succ n ih =>
          cases x with
          | nil => simp at hlen; omega
          | cons e x =>
              simp only [List.nil_append, List.replicate_succ, List.cons_append,
                List.cons.injEq] at hxy
              obtain ⟨rfl, hxy⟩ := hxy
              simp only [byteLen_nil, byteLen_cons, Nat.zero_add] at hlen
              cases q with
              | zero => omega
              | succ q =>
                  refine ih (q := q) (by omega) x hxy ?_
                  rw [byteLen_nil, Nat.zero_add]
                  rw [Nat.succ_mul] at hlen
                  omega

/-! ## Invalid bytes -/

/-- How many bytes a character takes that begins with this one, 0 when none does. -/
def charWidth (a : UInt8) : Nat :=
  if a < 0x80 then 1
  else if a < 0xC2 then 0
  else if a < 0xE0 then 2
  else if a < 0xF0 then 3
  else if a < 0xF5 then 4
  else 0

/-- A continuation byte. -/
def isContinuation (b : UInt8) : Bool := 0x80 ≤ b && b ≤ 0xBF

/-- A byte that may be the second one after `a`. -/
def isSecond (a b : UInt8) : Bool :=
  if a = 0xE0 then 0xA0 ≤ b && b ≤ 0xBF
  else if a = 0xED then 0x80 ≤ b && b ≤ 0x9F
  else if a = 0xF0 then 0x90 ≤ b && b ≤ 0xBF
  else if a = 0xF4 then 0x80 ≤ b && b ≤ 0x8F
  else isContinuation b

/-- The bytes after `a` that belong to its character, as far as they fit. -/
def continuation (a : UInt8) : Bytes → Bytes
  | [] => []
  | b :: rest =>
      if 2 ≤ charWidth a && isSecond a b then
        b :: (rest.take (charWidth a - 2)).takeWhile isContinuation
      else []

/-- The characters of at most so many pieces. -/
def decodePieces : Nat → Bytes → List Char
  | 0, _ | _, [] => []
  | n + 1, a :: rest =>
      let more := continuation a rest
      (decode (a :: more)).getD ['\uFFFD'] ++ decodePieces n (rest.drop more.length)

/-- `String::from_utf8_lossy`: a piece that begins like a character and is none becomes a
replacement character. -/
def decodeLossy (bs : Bytes) : List Char := decodePieces bs.length bs

example : decodeLossy [0x61, 0xFF, 0xE2, 0x82, 0x62] = ['a', '\uFFFD', '\uFFFD', 'b'] := by
  decide +kernel

theorem length_continuation_le (a : UInt8) (bs : Bytes) :
    (continuation a bs).length ≤ bs.length := by
  cases bs with
  | nil => exact Nat.le_refl 0
  | cons b rest =>
      rw [continuation]
      split
      · have hmore :=
          (List.takeWhile_sublist isContinuation (l := rest.take (charWidth a - 2))).length_le
        rw [List.length_take] at hmore
        simp only [List.length_cons]
        omega
      · exact Nat.zero_le _

/-- A byte becomes at most three. -/
theorem byteLen_decodePieces_le (n : Nat) (bs : Bytes) :
    byteLen (decodePieces n bs) ≤ 3 * bs.length := by
  induction n generalizing bs with
  | zero => exact Nat.zero_le _
  | succ n ih =>
      cases bs with
      | nil => exact Nat.zero_le _
      | cons a rest =>
          have hmore := length_continuation_le a rest
          have hrest := ih (rest.drop (continuation a rest).length)
          have hpiece : byteLen ((decode (a :: continuation a rest)).getD ['\uFFFD'])
              ≤ 3 * ((continuation a rest).length + 1) := by
            cases h : decode (a :: continuation a rest) with
            | none =>
                have hsize : byteLen ['\uFFFD'] = 3 := by decide
                rw [Option.getD_none, hsize]
                omega
            | some cs =>
                have hlen := congrArg List.length (decode_eq_some_iff.mp h)
                rw [length_encode, List.length_cons] at hlen
                rw [Option.getD_some]
                omega
          rw [List.length_drop] at hrest
          rw [decodePieces, byteLen_append, List.length_cons]
          omega

theorem byteLen_decodeLossy_le (bs : Bytes) : byteLen (decodeLossy bs) ≤ 3 * bs.length :=
  byteLen_decodePieces_le bs.length bs

/-- A continuation ends before a newline. -/
theorem continuation_append_newline (a : UInt8) (bs rest : Bytes) :
    continuation a (bs ++ 10 :: rest) = continuation a bs := by
  have htake : ∀ (k : Nat) (bs : Bytes), ((bs ++ 10 :: rest).take k).takeWhile isContinuation =
      (bs.take k).takeWhile isContinuation := by
    intro k bs
    induction bs generalizing k with
    | nil =>
        cases k with
        | zero => rfl
        | succ k =>
            have hten : isContinuation 10 = false := by decide
            rw [List.nil_append, List.take_succ_cons, List.takeWhile_cons_of_neg (by simp [hten]),
              List.take_nil, List.takeWhile_nil]
    | cons b bs ih =>
        cases k with
        | zero => rfl
        | succ k =>
            rw [List.cons_append, List.take_succ_cons, List.take_succ_cons, List.takeWhile_cons,
              List.takeWhile_cons, ih]
  cases bs with
  | nil =>
      have hten : isSecond a 10 = false := by
        have hcont : isContinuation 10 = false := by decide
        simp [isSecond, hcont]
      simp [continuation, hten]
  | cons b bs => rw [List.cons_append, continuation, continuation, htake]

/-- So many pieces are enough. -/
theorem decodePieces_of_le {n : Nat} {bs : Bytes} (hle : bs.length ≤ n) :
    decodePieces n bs = decodeLossy bs := by
  suffices h : ∀ n k (bs : Bytes), bs.length ≤ n → bs.length ≤ k →
      decodePieces n bs = decodePieces k bs from h n bs.length bs hle (Nat.le_refl _)
  intro n
  induction n with
  | zero =>
      intro k bs hn _
      obtain rfl := List.length_eq_zero_iff.mp (Nat.le_zero.mp hn)
      cases k <;> rfl
  | succ n ih =>
      intro k bs hn hk
      cases bs with
      | nil => cases k <;> rfl
      | cons a rest =>
          obtain ⟨k, rfl⟩ : ∃ j, k = j + 1 := ⟨k - 1, by simp at hk; omega⟩
          rw [decodePieces, decodePieces]
          congr 1
          refine ih k _ ?_ ?_
          · rw [List.length_drop]
            simp only [List.length_cons] at hn
            omega
          · rw [List.length_drop]
            simp only [List.length_cons] at hk
            omega

theorem decodeLossy_cons (a : UInt8) (rest : Bytes) :
    decodeLossy (a :: rest) = (decode (a :: continuation a rest)).getD ['\uFFFD'] ++
      decodeLossy (rest.drop (continuation a rest).length) := by
  rw [decodeLossy, List.length_cons, decodePieces, decodePieces_of_le]
  rw [List.length_drop]
  omega

/-- **A newline is read as a newline**, whatever invalid bytes are before and after it. -/
theorem decodeLossy_newline (bs rest : Bytes) :
    decodeLossy (bs ++ 10 :: rest) = decodeLossy bs ++ '\n' :: decodeLossy rest := by
  induction hlen : bs.length using Nat.strongRecOn generalizing bs with
  | ind n ih =>
      cases bs with
      | nil =>
          have hnone : continuation 10 rest = [] := by
            have hwidth : (2 ≤ charWidth 10) = False := by simp [charWidth]
            cases rest with
            | nil => rfl
            | cons b rest => simp [continuation, hwidth]
          have hten : decode [10] = some ['\n'] := decode_eq_some_iff.mpr (by decide)
          rw [List.nil_append, decodeLossy_cons, hnone, hten]
          rfl
      | cons a bs =>
          have hle := length_continuation_le a bs
          rw [List.cons_append, decodeLossy_cons, continuation_append_newline,
            List.drop_append_of_le_length hle, decodeLossy_cons, List.append_assoc]
          congr 1
          refine ih _ ?_ _ rfl
          rw [← hlen, List.length_drop, List.length_cons]
          omega

/-! ## Prefixes -/

/-- The longest beginning of a text that has at most so many bytes. -/
def takeBytes : Nat → List Char → List Char
  | _, [] => []
  | n, c :: cs => if c.utf8Size ≤ n then c :: takeBytes (n - c.utf8Size) cs else []

theorem byteLen_takeBytes_le (n : Nat) (cs : List Char) : byteLen (takeBytes n cs) ≤ n := by
  induction cs generalizing n with
  | nil => exact Nat.zero_le n
  | cons c cs ih =>
      rw [takeBytes]
      split
      · rename_i hc
        have hrest := ih (n - c.utf8Size)
        rw [byteLen_cons]
        omega
      · exact Nat.zero_le n

end Utf8

end Vaiexia.Lib
