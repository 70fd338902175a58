import Mathlib.Data.List.Infix
import Vaiexia.Lib.Text

/-!
# Words of a line

What the line parsers of a program rest on: words, which have no white space in them, survive
trimming and are what a line is split into; a line ends where it was ended; and a text put together
of words around blanks contains another such text only word by word.
-/

namespace Vaiexia.Lib

namespace Text

/-! ## Definitions -/

/-- A text that has no white space in it, and is not empty. -/
structure IsWord (w : List Char) : Prop where
  ne_nil : w ≠ []
  solid : ∀ c ∈ w, isWhitespace c = false

instance (w : List Char) : Decidable (IsWord w) :=
  decidable_of_iff (w.isEmpty = false ∧ w.any isWhitespace = false)
    ⟨fun ⟨hne, hsolid⟩ ↦ ⟨List.isEmpty_eq_false_iff.mp hne,
        fun c hc ↦ Bool.eq_false_iff.mpr (List.any_eq_false.mp hsolid c hc)⟩,
      fun ⟨hne, hsolid⟩ ↦ ⟨List.isEmpty_eq_false_iff.mpr hne,
        List.any_eq_false.mpr fun c hc ↦ Bool.eq_false_iff.mp (hsolid c hc)⟩⟩

/-- `str::trim_end`. -/
def trimEnd (cs : List Char) : List Char := (cs.reverse.dropWhile isWhitespace).reverse

/-- `str::split_whitespace`. -/
def splitWhitespace (cs : List Char) : List (List Char) :=
  (cs.splitOnP isWhitespace).filter fun piece ↦ !piece.isEmpty

/-- `str::rsplit_once`. -/
def rsplitOnce (sep : Char) (cs : List Char) : Option (List Char × List Char) :=
  match splitOnce sep cs.reverse with
  | (_, none) => none
  | (back, some front) => some (front.reverse, back.reverse)

/-! ## Trimming -/

theorem trim_eq (cs : List Char) : trim cs = trimEnd (cs.dropWhile isWhitespace) := rfl

@[simp] theorem trimEnd_nil : trimEnd [] = [] := rfl

/-- What ends in other than white space is not trimmed at its end. -/
theorem trimEnd_concat {cs : List Char} {c : Char} (hc : isWhitespace c = false) :
    trimEnd (cs ++ [c]) = cs ++ [c] := by
  rw [trimEnd, List.reverse_append, List.reverse_singleton, List.singleton_append,
    List.dropWhile_cons_of_neg (by simp [hc]), List.reverse_cons, List.reverse_reverse]

theorem trimEnd_concat_of_ws {cs : List Char} {c : Char} (hc : isWhitespace c = true) :
    trimEnd (cs ++ [c]) = trimEnd cs := by
  rw [trimEnd, List.reverse_append, List.reverse_singleton, List.singleton_append,
    List.dropWhile_cons_of_pos hc, trimEnd]

theorem trimEnd_eq_self {cs : List Char} (hlast : ∀ c ∈ cs.getLast?, isWhitespace c = false) :
    trimEnd cs = cs := by
  rcases List.eq_nil_or_concat cs with rfl | ⟨cs, c, rfl⟩
  · rfl
  · rw [List.concat_eq_append] at hlast ⊢
    exact trimEnd_concat (hlast c (by simp))

/-- What ends in other than white space is kept. -/
theorem trimEnd_append_cons {c : Char} (hc : isWhitespace c = false) (cs t : List Char) :
    trimEnd (cs ++ c :: t) = cs ++ c :: trimEnd t := by
  induction t using List.reverseRecOn with
  | nil => exact trimEnd_concat hc
  | append_singleton t d ih =>
      have hshape : cs ++ c :: (t ++ [d]) = (cs ++ c :: t) ++ [d] := by simp
      rw [hshape]
      cases hd : isWhitespace d with
      | true => rw [trimEnd_concat_of_ws hd, trimEnd_concat_of_ws hd, ih]
      | false => rw [trimEnd_concat hd, trimEnd_concat hd, hshape]

/-- What is up to a word's end is kept. -/
theorem trimEnd_append {w : List Char} (hw : IsWord w) (t : List Char) :
    trimEnd (w ++ t) = w ++ trimEnd t := by
  rcases List.eq_nil_or_concat w with rfl | ⟨front, c, rfl⟩
  · exact absurd rfl hw.ne_nil
  · rw [List.concat_eq_append] at hw ⊢
    have hc := hw.solid c (by simp)
    simpa using trimEnd_append_cons hc front t

theorem dropWhile_word {w : List Char} (hw : IsWord w) (t : List Char) :
    (w ++ t).dropWhile isWhitespace = w ++ t := by
  obtain ⟨c, w, rfl⟩ := List.exists_cons_of_ne_nil hw.ne_nil
  have hc := hw.solid c List.mem_cons_self
  rw [List.cons_append, List.dropWhile_cons_of_neg (by simp [hc])]

/-- A line that begins with a word is trimmed behind it. -/
theorem trim_append {w : List Char} (hw : IsWord w) (t : List Char) :
    trim (w ++ t) = w ++ trimEnd t := by
  rw [trim_eq, dropWhile_word hw, trimEnd_append hw]

theorem trim_word {w : List Char} (hw : IsWord w) : trim w = w := by
  rw [← List.append_nil w, trim_append hw, trimEnd_nil]

/-- The end of a line makes no difference to what is trimmed. -/
theorem trim_stripCr (cs : List Char) : trim (stripCr cs) = trim cs := by
  rw [stripCr]
  split
  · rename_i hlast
    rcases List.eq_nil_or_concat cs with rfl | ⟨cs, c, rfl⟩
    · rfl
    · rw [List.concat_eq_append] at hlast ⊢
      obtain rfl : c = '\r' := by simpa using hlast
      have hws : isWhitespace '\r' = true := by decide
      rw [List.dropLast_concat, trim_eq, trim_eq, List.dropWhile_append]
      split
      · rename_i hnil
        rw [List.isEmpty_iff.mp hnil, List.dropWhile_cons_of_pos hws]
        rfl
      · rw [trimEnd_concat_of_ws hws]
  · rfl

/-- Only what comes last in a line is at its end. -/
theorem stripCr_append {b : List Char} {c : Char} (hc : c ≠ '\r') (a : List Char) :
    stripCr (a ++ c :: b) = a ++ c :: stripCr b := by
  rw [stripCr, stripCr]
  rcases List.eq_nil_or_concat b with rfl | ⟨b, d, rfl⟩
  · simp [hc]
  · rw [List.concat_eq_append, ← List.cons_append, ← List.append_assoc, List.getLast?_concat,
      List.getLast?_concat, List.dropLast_concat, List.dropLast_concat]
    split <;> simp

/-- Lines that were ended by newlines, read again. -/
theorem lines_unlines_map {ls : List (List Char)} (h : ∀ l ∈ ls, '\n' ∉ l) :
    lines (unlines ls) = ls.map stripCr := by
  induction ls with
  | nil => rfl
  | cons l ls ih =>
      rw [unlines_cons, lines_append_newline (h l List.mem_cons_self),
        ih fun m hm ↦ h m (List.mem_cons_of_mem l hm), List.map_cons]

/-- The first line of a text, up to how it ends. -/
theorem exists_first_line {w : List Char} (hw : IsWord w) (t : List Char) :
    ∃ t' l more, lines (w ++ t) = l :: more ∧ (l = w ++ t' ∨ l = stripCr (w ++ t')) := by
  have hnewline : '\n' ∉ w := fun h ↦ by
    have hsolid := hw.solid _ h
    revert hsolid
    decide
  by_cases hmem : '\n' ∈ t
  · obtain ⟨t', rest, rfl, ht'⟩ := List.eq_append_cons_of_mem hmem
    refine ⟨t', _, lines rest, ?_, .inr rfl⟩
    rw [← List.append_assoc]
    exact lines_append_newline (by simp [hnewline, ht']) rest
  · have hnone : '\n' ∉ w ++ t := by simp [hnewline, hmem]
    have hne : (w ++ t).reverse.isEmpty = false := by simp [hw.ne_nil]
    refine ⟨t, _, [], ?_, .inl rfl⟩
    have hlines := linesAux_append hnone [] []
    rw [List.append_nil, List.append_nil, linesAux, hne, List.reverse_reverse] at hlines
    exact hlines

/-! ## Splitting -/

theorem splitOnP_word {w : List Char} (hw : ∀ c ∈ w, isWhitespace c = false) :
    w.splitOnP isWhitespace = [w] := List.splitOnP_eq_singleton hw

theorem splitWhitespace_word {w : List Char} (hw : IsWord w) : splitWhitespace w = [w] := by
  rw [splitWhitespace, splitOnP_word hw.solid]
  simp [hw.ne_nil]

/-- White space in front is skipped. -/
theorem splitWhitespace_cons {c : Char} (hc : isWhitespace c = true) (rest : List Char) :
    splitWhitespace (c :: rest) = splitWhitespace rest := by
  rw [splitWhitespace, ← List.nil_append (c :: rest), List.splitOnP_append_cons _ _ hc,
    List.filter_append]
  rfl

/-- The first word of a line. -/
theorem splitWhitespace_append {w : List Char} {c : Char} (hw : IsWord w)
    (hc : isWhitespace c = true) (rest : List Char) :
    splitWhitespace (w ++ c :: rest) = w :: splitWhitespace rest := by
  rw [splitWhitespace, List.splitOnP_append_cons _ _ hc, List.filter_append,
    splitOnP_word hw.solid]
  simp [hw.ne_nil, splitWhitespace]

/-- The first word after any number of blanks. -/
theorem splitWhitespace_blanks (n : Nat) (rest : List Char) :
    splitWhitespace (List.replicate n ' ' ++ rest) = splitWhitespace rest := by
  induction n with
  | zero => rfl
  | succ n ih => rw [List.replicate_succ, List.cons_append, splitWhitespace_cons (by decide), ih]

/-- The first word of a line that begins with one. -/
theorem head_splitWhitespace {w : List Char} (hw : IsWord w) (t : List Char) :
    ∃ more, (splitWhitespace (w ++ t)).head? = some (w ++ more) := by
  induction t generalizing w with
  | nil => exact ⟨[], by rw [List.append_nil, splitWhitespace_word hw]; rfl⟩
  | cons c t ih =>
      cases hc : isWhitespace c with
      | true => exact ⟨[], by rw [splitWhitespace_append hw hc, List.append_nil]; rfl⟩
      | false =>
          have hwc : IsWord (w ++ [c]) := by
            refine ⟨by simp, fun d hd ↦ ?_⟩
            rcases List.mem_append.mp hd with hd | hd
            · exact hw.solid d hd
            · rw [List.mem_singleton.mp hd, hc]
          obtain ⟨more, hmore⟩ := ih hwc
          exact ⟨c :: more, by simpa using hmore⟩

/-- The last separator is the one after which there is none. -/
theorem rsplitOnce_append {sep : Char} {b : List Char} (hb : sep ∉ b) (a : List Char) :
    rsplitOnce sep (a ++ sep :: b) = some (a, b) := by
  have hb' : sep ∉ b.reverse := fun h ↦ hb (List.mem_reverse.mp h)
  rw [rsplitOnce, List.reverse_append, List.reverse_cons, List.append_assoc, List.singleton_append,
    splitOnce_append _ hb']
  simp

/-! ## Words around blanks -/

/-- What has no separator in it begins a text only if it begins what is before the separator. -/
theorem prefix_append_sep_iff {sep : Char} {p : List Char} (hp : sep ∉ p) (a b : List Char) :
    p <+: a ++ sep :: b ↔ p <+: a := by
  constructor
  · rintro ⟨t, h⟩
    rcases List.append_eq_append_iff.mp h with ⟨more, rfl, -⟩ | ⟨more, rfl, hmore⟩
    · exact List.prefix_append _ _
    · cases more with
      | nil =>
          rw [List.append_nil]
      | cons c more =>
          obtain ⟨rfl, -⟩ := List.cons.inj hmore
          simp at hp
  · exact fun h ↦ h.trans (List.prefix_append _ _)

/-- There is one way to cut before the first separator. -/
theorem append_sep_inj {sep : Char} {a b s t : List Char} (ha : sep ∉ a) (hb : sep ∉ b)
    (h : a ++ sep :: s = b ++ sep :: t) : a = b ∧ s = t := by
  have hsplit := congrArg (splitOnce sep) h
  rw [splitOnce_append s ha, splitOnce_append t hb] at hsplit
  obtain ⟨rfl, hst⟩ := Prod.mk.inj hsplit
  exact ⟨rfl, Option.some.inj hst⟩

/-- Three words around separators, within three others: the last part of the first word, the whole
second one, and the first part of the last one. -/
theorem infix_three_iff {sep : Char} {a b c x y z : List Char} (ha : sep ∉ a) (hb : sep ∉ b)
    (hc : sep ∉ c) (hx : sep ∉ x) (hy : sep ∉ y) (hz : sep ∉ z) :
    a ++ sep :: (b ++ sep :: c) <:+: x ++ sep :: (y ++ sep :: z) ↔ a <:+ x ∧ b = y ∧ c <+: z := by
  constructor
  · rintro ⟨s, t, h⟩
    -- both sides have two separators, so there is none in what is around
    have hcount := congrArg (List.count sep) h
    simp only [List.count_append, List.count_cons_self, List.count_eq_zero_of_not_mem ha,
      List.count_eq_zero_of_not_mem hb, List.count_eq_zero_of_not_mem hc,
      List.count_eq_zero_of_not_mem hx, List.count_eq_zero_of_not_mem hy,
      List.count_eq_zero_of_not_mem hz] at hcount
    have hs : sep ∉ s := List.count_eq_zero.mp (by omega)
    have hsa : sep ∉ s ++ a := by simp [hs, ha]
    simp only [List.append_assoc, List.cons_append] at h
    rw [← List.append_assoc] at h
    obtain ⟨hx', h⟩ := append_sep_inj hsa hx h
    obtain ⟨hy', h⟩ := append_sep_inj hb hy h
    exact ⟨⟨s, hx'⟩, hy', ⟨t, h⟩⟩
  · rintro ⟨⟨s, rfl⟩, rfl, ⟨t, rfl⟩⟩
    exact ⟨s, t, by simp⟩

end Text

end Vaiexia.Lib
