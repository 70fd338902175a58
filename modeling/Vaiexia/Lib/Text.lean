import Vaiexia.Lib.Utf8

/-!
# The string functions of the Rust standard library

Texts are lists of characters.  `lines`, `trim` and `splitn` follow the documentation of
`str::lines`, `str::trim` and `str::splitn`; `unlines` is what a program writes that puts every
line before a newline of its own.
-/

namespace Vaiexia.Lib

namespace Text

/-! ## Lines -/

/-- `str::strip_suffix('\r')`, keeping the line when it has no such suffix. -/
def stripCr (line : List Char) : List Char :=
  if line.getLast? = some '\r' then line.dropLast else line

/-- `lines`, with the characters of the line being read collected in reverse. -/
def linesAux : List Char → List Char → List (List Char)
  | acc, [] => if acc.isEmpty then [] else [acc.reverse]
  | acc, c :: cs =>
      if c = '\n' then stripCr acc.reverse :: linesAux [] cs else linesAux (c :: acc) cs

/-- `str::lines`: the pieces ended by `\n` or `\r\n`; a non-empty unterminated tail is a line,
kept as it is. -/
def lines (cs : List Char) : List (List Char) := linesAux [] cs

/-- Every line followed by a newline. -/
def unlines (ls : List (List Char)) : List Char := ls.flatMap (· ++ ['\n'])

@[simp] theorem unlines_nil : unlines [] = [] := rfl

@[simp] theorem unlines_cons (l : List Char) (ls : List (List Char)) :
    unlines (l :: ls) = l ++ '\n' :: unlines ls := by simp [unlines]

@[simp] theorem unlines_append (ls ms : List (List Char)) :
    unlines (ls ++ ms) = unlines ls ++ unlines ms := by simp [unlines]

theorem linesAux_append {l : List Char} (h : '\n' ∉ l) (acc rest : List Char) :
    linesAux acc (l ++ rest) = linesAux (l.reverse ++ acc) rest := by
  induction l generalizing acc with
  | nil => rfl
  | cons c l ih =>
      have hc : c ≠ '\n' := fun e ↦ h (by simp [e])
      have hl : '\n' ∉ l := fun e ↦ h (by simp [e])
      simp [linesAux, hc, ih hl]

/-- A terminated line is the first line. -/
theorem lines_append_newline {l : List Char} (h : '\n' ∉ l) (rest : List Char) :
    lines (l ++ '\n' :: rest) = stripCr l :: lines rest := by
  simp [lines, linesAux_append h, linesAux]

@[simp] theorem lines_nil : lines [] = [] := rfl

/-- A line that `lines` gives back as it was written. -/
def IsLine (l : List Char) : Prop := '\n' ∉ l ∧ l.getLast? ≠ some '\r'

theorem stripCr_of_isLine {l : List Char} (h : IsLine l) : stripCr l = l := by
  simp [stripCr, h.2]

/-- The text after a newline is read on its own. -/
theorem lines_append_unlines {l : List Char} (h : '\n' ∉ l) {ls : List (List Char)}
    (hls : ∀ m ∈ ls, IsLine m) :
    lines (l ++ '\n' :: unlines ls) = stripCr l :: ls := by
  rw [lines_append_newline h]
  congr 1
  induction ls with
  | nil => rfl
  | cons m ls ih =>
      have hm : IsLine m := hls m (by simp)
      rw [unlines_cons, lines_append_newline hm.1, stripCr_of_isLine hm]
      rw [ih fun k hk ↦ hls k (by simp [hk])]

/-- Reading back what was written line by line. -/
theorem lines_unlines {ls : List (List Char)} (h : ∀ l ∈ ls, IsLine l) :
    lines (unlines ls) = ls := by
  cases ls with
  | nil => rfl
  | cons l ls =>
      have hl : IsLine l := h l (by simp)
      rw [unlines_cons, lines_append_unlines hl.1 fun m hm ↦ h m (by simp [hm]),
        stripCr_of_isLine hl]

theorem linesAux_append_newline (acc a b : List Char) :
    linesAux acc (a ++ '\n' :: b) = linesAux acc (a ++ ['\n']) ++ lines b := by
  induction a generalizing acc with
  | nil => simp [linesAux, lines]
  | cons c a ih =>
      by_cases hc : c = '\n'
      · simp [linesAux, hc, ih]
      · simp [linesAux, hc, ih]

/-- A text that ends a line, or is empty. -/
def EndsLine (cs : List Char) : Prop := cs = [] ∨ ∃ a, cs = a ++ ['\n']

/-- What comes after the end of a line is read on its own. -/
theorem lines_append {a : List Char} (h : EndsLine a) (b : List Char) :
    lines (a ++ b) = lines a ++ lines b := by
  rcases h with rfl | ⟨a, rfl⟩
  · rfl
  · rw [List.append_assoc]
    exact linesAux_append_newline [] a b

/-- The rest of a text of whole lines ends a line, wherever it is cut. -/
theorem endsLine_of_append_eq_unlines {a b : List Char} {ls : List (List Char)}
    (h : a ++ b = unlines ls) : EndsLine b := by
  rcases List.eq_nil_or_concat ls with rfl | ⟨ls, l, rfl⟩
  · exact .inl (List.append_eq_nil_iff.mp h).2
  · rcases List.eq_nil_or_concat b with rfl | ⟨b, c, rfl⟩
    · exact .inl rfl
    · have hlast := congrArg List.getLast? h
      simp at hlast
      exact .inr ⟨b, by rw [hlast]; simp⟩

/-! ## Trimming -/

/-- The characters with the Unicode property `White_Space`. -/
def isWhitespace (c : Char) : Bool :=
  (0x09 ≤ c.val && c.val ≤ 0x0D) || c.val == 0x20 || c.val == 0x85 || c.val == 0xA0
    || c.val == 0x1680 || (0x2000 ≤ c.val && c.val ≤ 0x200A) || c.val == 0x2028
    || c.val == 0x2029 || c.val == 0x202F || c.val == 0x205F || c.val == 0x3000

/-- `str::trim`. -/
def trim (cs : List Char) : List Char :=
  ((cs.dropWhile isWhitespace).reverse.dropWhile isWhitespace).reverse

/-! ## Splitting -/

/-- The text before and after the first `sep`, the latter `none` when there is no `sep`. -/
def splitOnce (sep : Char) : List Char → List Char × Option (List Char)
  | [] => ([], none)
  | c :: cs =>
      if c = sep then ([], some cs)
      else ((c :: (splitOnce sep cs).1), (splitOnce sep cs).2)

/-- `str::splitn`: at most `n` pieces, the last one holding everything that is left. -/
def splitn : Nat → Char → List Char → List (List Char)
  | 0, _, _ => []
  | 1, _, cs => [cs]
  | n + 1, sep, cs =>
      match splitOnce sep cs with
      | (piece, none) => [piece]
      | (piece, some rest) => piece :: splitn n sep rest

/-- The first piece ends at the first separator. -/
theorem splitOnce_append {sep : Char} {piece : List Char} (rest : List Char) (h : sep ∉ piece) :
    splitOnce sep (piece ++ sep :: rest) = (piece, some rest) := by
  induction piece with
  | nil => exact if_pos rfl
  | cons c piece ih =>
      have hne : c ≠ sep := fun heq ↦ h (heq ▸ List.mem_cons_self)
      rw [List.cons_append, splitOnce, if_neg hne, ih fun hmem ↦ h (List.mem_cons_of_mem c hmem)]

/-- What was split off was put together with the separator. -/
theorem splitOnce_spec (sep : Char) (cs : List Char) :
    (splitOnce sep cs = (cs, none) ∧ sep ∉ cs) ∨
      ∃ piece rest, splitOnce sep cs = (piece, some rest) ∧ cs = piece ++ sep :: rest ∧
        sep ∉ piece := by
  induction cs with
  | nil => exact .inl ⟨rfl, List.not_mem_nil⟩
  | cons c cs ih =>
      by_cases hc : c = sep
      · refine .inr ⟨[], cs, ?_, by rw [hc, List.nil_append], List.not_mem_nil⟩
        rw [splitOnce, if_pos hc]
      · rw [splitOnce, if_neg hc]
        rcases ih with ⟨hsplit, hmem⟩ | ⟨piece, rest, hsplit, hcs, hmem⟩
        · rw [hsplit]
          exact .inl ⟨rfl, List.not_mem_cons_of_ne_of_not_mem (Ne.symm hc) hmem⟩
        · rw [hsplit]
          exact .inr ⟨c :: piece, rest, rfl, by rw [hcs, List.cons_append],
            List.not_mem_cons_of_ne_of_not_mem (Ne.symm hc) hmem⟩

/-- So many pieces are those that were put together. -/
theorem splitn_append {sep : Char} {piece : List Char} (n : Nat) (rest : List Char)
    (h : sep ∉ piece) :
    splitn (n + 2) sep (piece ++ sep :: rest) = piece :: splitn (n + 1) sep rest := by
  rw [splitn, splitOnce_append rest h]
  exact fun h ↦ nomatch h

/-- Without the separator there is one piece. -/
theorem splitn_of_notMem {sep : Char} {cs : List Char} (n : Nat) (h : sep ∉ cs) :
    splitn (n + 1) sep cs = [cs] := by
  cases n with
  | zero => rfl
  | succ n =>
      rcases splitOnce_spec sep cs with ⟨hsplit, -⟩ | ⟨piece, rest, -, hcs, -⟩
      · rw [splitn, hsplit]
        exact fun h ↦ nomatch h
      · rw [hcs] at h
        exact absurd (List.mem_append_right piece List.mem_cons_self) h

/-! ## Numbers -/

/-- `str::parse` of an unsigned type with so many values: decimal digits, which a plus may precede.
-/
def parseUnsigned (bound : Nat) (cs : List Char) : Option Nat :=
  let ds :=
    match cs with
    | '+' :: rest => rest
    | _ => cs
  if ds.isEmpty || !ds.all Char.isDigit then none
  else if Nat.ofDigitChars 10 ds 0 < bound then some (Nat.ofDigitChars 10 ds 0)
  else none

/-- A number that was displayed is parsed. -/
theorem parseUnsigned_toDigits {n bound : Nat} (h : n < bound) :
    parseUnsigned bound (Nat.toDigits 10 n) = some n := by
  have hdigit : ∀ c ∈ Nat.toDigits 10 n, c.isDigit = true := fun _ hc ↦
    Nat.isDigit_of_mem_toDigits (by decide) (by decide) hc
  have hplus : ∀ rest, Nat.toDigits 10 n ≠ '+' :: rest := by
    intro rest heq
    have hfirst := hdigit '+' (heq ▸ List.mem_cons_self)
    revert hfirst
    decide
  have hempty : (Nat.toDigits 10 n).isEmpty = false :=
    List.isEmpty_eq_false_iff.mpr Nat.toDigits_ne_nil
  have hall : (Nat.toDigits 10 n).all Char.isDigit = true := List.all_eq_true.mpr hdigit
  unfold parseUnsigned
  split
  · rename_i rest heq
    exact absurd heq (hplus rest)
  · dsimp only
    rw [hempty, hall, Nat.ofDigitChars_ten_toDigits, if_pos h]
    rfl

/-! ## What a text contains -/

/-- What contains no separator lies before or after it. -/
theorem infix_or_infix_of_notMem {sep : Char} {l a b : List Char} (hsep : sep ∉ l)
    (h : l <:+: a ++ sep :: b) : l <:+: a ∨ l <:+: b := by
  obtain ⟨s, t, h⟩ := h
  rcases List.append_eq_append_iff.mp h with ⟨more, ha, -⟩ | ⟨more, ha, hb⟩
  · exact .inl ⟨s, more, ha.symm⟩
  · cases more with
    | nil => exact .inl ⟨s, [], by rw [ha, List.append_nil, List.append_nil]⟩
    | cons c more =>
        obtain ⟨rfl, rfl⟩ := List.cons.inj hb
        rcases List.append_eq_append_iff.mp ha with ⟨rest, -, hl⟩ | ⟨rest, -, hmore⟩
        · exact absurd (hl ▸ List.mem_append_right _ List.mem_cons_self) hsep
        · cases rest with
          | nil =>
              rw [List.nil_append] at hmore
              exact absurd (hmore ▸ List.mem_cons_self) hsep
          | cons c' rest =>
              obtain ⟨rfl, rfl⟩ := List.cons.inj hmore
              exact .inr ⟨rest, t, rfl⟩

end Text

end Vaiexia.Lib
