import Mathlib.Data.List.Basic
import Vaiexia.Lib.Utf8

/-!
# Texts of JSON

The grammar of JSON texts on bytes, as far as brackets, strings and separators go: a number or a
literal name is any word of the bytes that these are written with, and an escape is a backslash with
any byte that may come after one.  Every JSON text is one of these, so what is shown of them holds
of a reader that accepts some of them only.

A text is balanced: a scan that counts brackets outside strings comes back to where it began, and
does not go below it.  So no proper beginning of an object is a text (`not_isText_of_prefix`).
-/

namespace Vaiexia.Lib

namespace JsonText

/-! ## Grammar -/

/-- White space between tokens. -/
def isBlank (b : UInt8) : Bool := b == 0x20 || b == 0x09 || b == 0x0A || b == 0x0D

/-- The bytes that numbers and literal names are written with. -/
def isAtomByte (b : UInt8) : Bool :=
  (0x30 ≤ b && b ≤ 0x39) || (0x41 ≤ b && b ≤ 0x5A) || (0x61 ≤ b && b ≤ 0x7A) || b == 0x2B ||
    b == 0x2D || b == 0x2E

/-- A byte that stands for itself in a string: no quote, backslash or control character. -/
def isPlain (b : UInt8) : Bool := 0x20 ≤ b && b != 0x22 && b != 0x5C

/-- A byte that may come after a backslash. -/
def isEscape (b : UInt8) : Bool :=
  b == 0x22 || b == 0x5C || b == 0x2F || b == 0x62 || b == 0x66 || b == 0x6E || b == 0x72 ||
    b == 0x74 || b == 0x75

/-- White space, possibly none. -/
def Blanks (bs : Bytes) : Prop := ∀ b ∈ bs, isBlank b = true

/-- What is between the quotes of a string. -/
inductive StrBody : Bytes → Prop
  | nil : StrBody []
  | plain {b : UInt8} {bs : Bytes} (hb : isPlain b = true) (hbs : StrBody bs) : StrBody (b :: bs)
  | escape {b : UInt8} {bs : Bytes} (hb : isEscape b = true) (hbs : StrBody bs) :
      StrBody (0x5C :: b :: bs)

theorem StrBody.of_all {bs : Bytes} (h : bs.all isPlain = true) : StrBody bs := by
  induction bs with
  | nil => exact .nil
  | cons b bs ih =>
      rw [List.all_cons, Bool.and_eq_true] at h
      exact .plain h.1 (ih h.2)

/-- A string. -/
inductive IsString : Bytes → Prop
  | mk {body : Bytes} (hbody : StrBody body) : IsString (0x22 :: (body ++ [0x22]))

/-- The symbols of the grammar: a value, and what is in the brackets of an array or object that is
not empty. -/
inductive Symbol where
  | value | elements | members

/-- The texts of a symbol. -/
inductive Derives : Symbol → Bytes → Prop
  | atom {bs : Bytes} (hne : bs ≠ []) (hbs : ∀ b ∈ bs, isAtomByte b = true) : Derives .value bs
  | str {bs : Bytes} (hbs : IsString bs) : Derives .value bs
  | emptyArr {ws : Bytes} (hws : Blanks ws) : Derives .value (0x5B :: (ws ++ [0x5D]))
  | arr {es : Bytes} (hes : Derives .elements es) : Derives .value (0x5B :: (es ++ [0x5D]))
  | emptyObj {ws : Bytes} (hws : Blanks ws) : Derives .value (0x7B :: (ws ++ [0x7D]))
  | obj {ms : Bytes} (hms : Derives .members ms) : Derives .value (0x7B :: (ms ++ [0x7D]))
  | element {a v b : Bytes} (ha : Blanks a) (hv : Derives .value v) (hb : Blanks b) :
      Derives .elements (a ++ (v ++ b))
  | elements {a v b es : Bytes} (ha : Blanks a) (hv : Derives .value v) (hb : Blanks b)
      (hes : Derives .elements es) : Derives .elements (a ++ (v ++ (b ++ 0x2C :: es)))
  | member {a key b c v d : Bytes} (ha : Blanks a) (hkey : IsString key) (hb : Blanks b)
      (hc : Blanks c) (hv : Derives .value v) (hd : Blanks d) :
      Derives .members (a ++ (key ++ (b ++ 0x3A :: (c ++ (v ++ d)))))
  | members {a key b c v d ms : Bytes} (ha : Blanks a) (hkey : IsString key) (hb : Blanks b)
      (hc : Blanks c) (hv : Derives .value v) (hd : Blanks d) (hms : Derives .members ms) :
      Derives .members (a ++ (key ++ (b ++ 0x3A :: (c ++ (v ++ (d ++ 0x2C :: ms))))))

/-- A text: a value with white space around it. -/
def IsText (bs : Bytes) : Prop :=
  ∃ a v b, bs = a ++ (v ++ b) ∧ Blanks a ∧ Derives .value v ∧ Blanks b

/-- An object, from its opening to its closing brace. -/
def IsObject (bs : Bytes) : Prop :=
  ∃ body, bs = 0x7B :: (body ++ [0x7D]) ∧ (Blanks body ∨ Derives .members body)

/-! ## The scan -/

/-- Where the scan is: outside strings, in one, or behind a backslash. -/
inductive Mode where
  | outside | inString | escaped
deriving DecidableEq

/-- How many brackets are open, and where the scan is. -/
structure Scan where
  depth : Nat
  mode : Mode
deriving DecidableEq

/-- One byte of the scan. -/
def Scan.step (s : Scan) (b : UInt8) : Scan :=
  match s.mode with
  | .outside =>
      if b = 0x22 then { s with mode := .inString }
      else if b = 0x5B ∨ b = 0x7B then { s with depth := s.depth + 1 }
      else if b = 0x5D ∨ b = 0x7D then { s with depth := s.depth - 1 }
      else s
  | .inString =>
      if b = 0x22 then { s with mode := .outside }
      else if b = 0x5C then { s with mode := .escaped }
      else s
  | .escaped => { s with mode := .inString }

def Scan.run (s : Scan) (bs : Bytes) : Scan := bs.foldl Scan.step s

/-- The scan of these bytes comes back to where it began, and does not close a bracket that was open
there. -/
structure Balanced (bs : Bytes) : Prop where
  settled : ∀ d, (Scan.mk d .outside).run bs = ⟨d, .outside⟩
  above : ∀ d p, p <+: bs → d ≤ ((Scan.mk d .outside).run p).depth

theorem Scan.run_append (s : Scan) (a b : Bytes) : s.run (a ++ b) = (s.run a).run b :=
  List.foldl_append

/-- A beginning of bytes after bytes is one of the first, or goes on in the others. -/
theorem prefix_append_cases {p a b : Bytes} (h : p <+: a ++ b) :
    p <+: a ∨ ∃ q, p = a ++ q ∧ q <+: b := by
  obtain ⟨t, ht⟩ := h
  rcases List.append_eq_append_iff.mp ht with ⟨more, rfl, -⟩ | ⟨q, rfl, rfl⟩
  · exact .inl (List.prefix_append _ _)
  · exact .inr ⟨q, rfl, List.prefix_append _ _⟩

/-- The bytes that the scan outside strings takes note of. -/
def marks : List UInt8 := [0x22, 0x5B, 0x5D, 0x7B, 0x7D]

theorem step_of_notMem_marks {b : UInt8} (hb : b ∉ marks) (d : Nat) :
    (Scan.mk d .outside).step b = ⟨d, .outside⟩ := by
  simp only [marks, List.mem_cons, List.not_mem_nil, or_false, not_or] at hb
  obtain ⟨hquote, hopen, hclose, hopen', hclose'⟩ := hb
  simp [Scan.step, hquote, hopen, hclose, hopen', hclose']

theorem notMem_marks {f : UInt8 → Bool} (hf : marks.any f = false) {b : UInt8} (hb : f b = true) :
    b ∉ marks := fun hmem ↦ List.any_eq_false.mp hf b hmem hb

namespace Balanced

theorem nil : Balanced [] where
  settled _ := rfl
  above d p hp := by
    rw [List.prefix_nil.mp hp]
    exact Nat.le_refl d

/-- Bytes after bytes. -/
theorem append {a b : Bytes} (ha : Balanced a) (hb : Balanced b) : Balanced (a ++ b) where
  settled d := by rw [Scan.run_append, ha.settled, hb.settled]
  above d p hp := by
    rcases prefix_append_cases hp with hp | ⟨q, rfl, hq⟩
    · exact ha.above d p hp
    · rw [Scan.run_append, ha.settled]
      exact hb.above d q hq

/-- A byte that the scan takes no note of. -/
theorem cons {b : UInt8} {bs : Bytes} (hb : b ∉ marks) (hbs : Balanced bs) :
    Balanced (b :: bs) where
  settled d := by
    show ((Scan.mk d .outside).step b).run bs = _
    rw [step_of_notMem_marks hb, hbs.settled]
  above d p hp := by
    rcases List.prefix_cons_iff.mp hp with rfl | ⟨q, rfl, hq⟩
    · exact Nat.le_refl d
    · show d ≤ (((Scan.mk d .outside).step b).run q).depth
      rw [step_of_notMem_marks hb]
      exact hbs.above d q hq

theorem of_forall {f : UInt8 → Bool} (hf : marks.any f = false) {bs : Bytes}
    (hbs : ∀ b ∈ bs, f b = true) : Balanced bs := by
  induction bs with
  | nil => exact nil
  | cons b bs ih =>
      exact cons (notMem_marks hf (hbs b List.mem_cons_self))
        (ih fun c hc ↦ hbs c (List.mem_cons_of_mem b hc))

theorem blanks {bs : Bytes} (h : Blanks bs) : Balanced bs := of_forall (by decide) h

/-- What is in brackets. -/
theorem brackets {opening closing : UInt8} (hopen : opening = 0x5B ∨ opening = 0x7B)
    (hclose : closing = 0x5D ∨ closing = 0x7D) {bs : Bytes} (hbs : Balanced bs) :
    Balanced (opening :: (bs ++ [closing])) := by
  have hup : ∀ d, (Scan.mk d .outside).step opening = ⟨d + 1, .outside⟩ := by
    intro d
    rcases hopen with rfl | rfl <;> rfl
  have hdown : ∀ d, (Scan.mk (d + 1) .outside).step closing = ⟨d, .outside⟩ := by
    intro d
    rcases hclose with rfl | rfl <;> rfl
  constructor
  · intro d
    show ((Scan.mk d .outside).step opening).run (bs ++ [closing]) = _
    rw [hup, Scan.run_append, hbs.settled]
    exact hdown d
  · intro d p hp
    rcases List.prefix_cons_iff.mp hp with rfl | ⟨q, rfl, hq⟩
    · exact Nat.le_refl d
    · show d ≤ (((Scan.mk d .outside).step opening).run q).depth
      rw [hup]
      rcases prefix_append_cases hq with hq | ⟨r, rfl, hr⟩
      · exact Nat.le_of_succ_le (hbs.above (d + 1) q hq)
      · rw [Scan.run_append, hbs.settled]
        rcases List.prefix_cons_iff.mp hr with rfl | ⟨e, rfl, he⟩
        · exact Nat.le_succ d
        · rw [List.prefix_nil.mp he]
          show d ≤ ((Scan.mk (d + 1) .outside).step closing).depth
          exact Nat.le_of_eq (congrArg Scan.depth (hdown d)).symm

end Balanced

/-- The scan stays in a string until its end. -/
theorem run_strBody {body : Bytes} (h : StrBody body) (d : Nat) :
    (Scan.mk d .inString).run body = ⟨d, .inString⟩ ∧
      ∀ p, p <+: body → ((Scan.mk d .inString).run p).depth = d := by
  induction h with
  | nil => exact ⟨rfl, fun p hp ↦ by rw [List.prefix_nil.mp hp]; rfl⟩
  | @plain b bs hb _ ih =>
      have hstep : (Scan.mk d .inString).step b = ⟨d, .inString⟩ := by
        simp only [isPlain, Bool.and_eq_true, bne_iff_ne] at hb
        simp [Scan.step, hb.1.2, hb.2]
      refine ⟨?_, fun p hp ↦ ?_⟩
      · show ((Scan.mk d .inString).step b).run bs = _
        rw [hstep, ih.1]
      · rcases List.prefix_cons_iff.mp hp with rfl | ⟨q, rfl, hq⟩
        · rfl
        · show (((Scan.mk d .inString).step b).run q).depth = d
          rw [hstep, ih.2 q hq]
  | @escape b bs hb _ ih =>
      refine ⟨ih.1, fun p hp ↦ ?_⟩
      rcases List.prefix_cons_iff.mp hp with rfl | ⟨q, rfl, hq⟩
      · rfl
      · rcases List.prefix_cons_iff.mp hq with rfl | ⟨r, rfl, hr⟩
        · rfl
        · exact ih.2 r hr

theorem IsString.balanced {bs : Bytes} (h : IsString bs) : Balanced bs := by
  obtain ⟨hbody⟩ := h
  rename_i body
  constructor
  · intro d
    show (Scan.mk d .inString).run (body ++ [0x22]) = _
    rw [Scan.run_append, (run_strBody hbody d).1]
    rfl
  · intro d p hp
    rcases List.prefix_cons_iff.mp hp with rfl | ⟨q, rfl, hq⟩
    · exact Nat.le_refl d
    · show d ≤ ((Scan.mk d .inString).run q).depth
      rcases prefix_append_cases hq with hq | ⟨r, rfl, hr⟩
      · exact Nat.le_of_eq ((run_strBody hbody d).2 q hq).symm
      · rw [Scan.run_append, (run_strBody hbody d).1]
        rcases List.prefix_cons_iff.mp hr with rfl | ⟨e, rfl, he⟩
        · exact Nat.le_refl d
        · rw [List.prefix_nil.mp he]
          exact Nat.le_refl d

/-- **Every text of the grammar is balanced.** -/
theorem Derives.balanced {s : Symbol} {bs : Bytes} (h : Derives s bs) : Balanced bs := by
  have hcomma : (0x2C : UInt8) ∉ marks := by decide
  have hcolon : (0x3A : UInt8) ∉ marks := by decide
  induction h with
  | atom _ hbs => exact .of_forall (by decide) hbs
  | str hbs => exact hbs.balanced
  | emptyArr hws => exact .brackets (.inl rfl) (.inl rfl) (.blanks hws)
  | arr _ ih => exact .brackets (.inl rfl) (.inl rfl) ih
  | emptyObj hws => exact .brackets (.inr rfl) (.inr rfl) (.blanks hws)
  | obj _ ih => exact .brackets (.inr rfl) (.inr rfl) ih
  | element ha _ hb ih => exact (Balanced.blanks ha).append (ih.append (.blanks hb))
  | elements ha _ hb _ ih ihs =>
      exact (Balanced.blanks ha).append (ih.append ((Balanced.blanks hb).append (.cons hcomma ihs)))
  | member ha hkey hb hc _ hd ih =>
      exact (Balanced.blanks ha).append (hkey.balanced.append ((Balanced.blanks hb).append
        (.cons hcolon ((Balanced.blanks hc).append (ih.append (.blanks hd))))))
  | members ha hkey hb hc _ hd _ ih ihs =>
      exact (Balanced.blanks ha).append (hkey.balanced.append ((Balanced.blanks hb).append
        (.cons hcolon ((Balanced.blanks hc).append (ih.append ((Balanced.blanks hd).append
          (.cons hcomma ihs)))))))

/-- No value is empty. -/
theorem Derives.value_ne_nil {s : Symbol} {bs : Bytes} (h : Derives s bs) (hs : s = .value) :
    bs ≠ [] := by
  cases h with
  | atom hne _ => exact hne
  | str hbs =>
      obtain ⟨_⟩ := hbs
      exact List.cons_ne_nil _ _
  | emptyArr => exact List.cons_ne_nil _ _
  | arr => exact List.cons_ne_nil _ _
  | emptyObj => exact List.cons_ne_nil _ _
  | obj => exact List.cons_ne_nil _ _
  | element => cases hs
  | elements => cases hs
  | member => cases hs
  | members => cases hs

theorem IsText.balanced {bs : Bytes} (h : IsText bs) : Balanced bs := by
  obtain ⟨a, v, b, rfl, ha, hv, hb⟩ := h
  exact (Balanced.blanks ha).append (hv.balanced.append (.blanks hb))

theorem IsText.ne_nil {bs : Bytes} (h : IsText bs) : bs ≠ [] := by
  obtain ⟨a, v, b, rfl, -, hv, -⟩ := h
  simp [hv.value_ne_nil rfl]

/-- **No proper beginning of an object is a text**: it is empty, or its first brace is open. -/
theorem not_isText_of_prefix {bs p : Bytes} (h : IsObject bs) (hp : p <+: bs) (hne : p ≠ bs) :
    ¬ IsText p := by
  intro htext
  obtain ⟨body, rfl, hbody⟩ := h
  have hinside : Balanced body := by
    rcases hbody with hbody | hbody
    · exact .blanks hbody
    · exact hbody.balanced
  rcases List.prefix_cons_iff.mp hp with rfl | ⟨q, rfl, hq⟩
  · exact htext.ne_nil rfl
  · have hsettled := htext.balanced.settled 0
    rcases prefix_append_cases hq with hq | ⟨r, rfl, hr⟩
    · -- the cut is in the body, with the brace before it open
      have habove : 1 ≤ ((Scan.mk 1 .outside).run q).depth := hinside.above 1 q hq
      have hrun : (Scan.mk 1 .outside).run q = ⟨0, .outside⟩ := hsettled
      rw [hrun] at habove
      exact absurd habove (by decide)
    · rcases List.prefix_cons_iff.mp hr with rfl | ⟨e, rfl, he⟩
      · -- the cut is just before the closing brace
        rw [List.append_nil] at hsettled
        have hrun : (Scan.mk 1 .outside).run body = ⟨0, .outside⟩ := hsettled
        rw [hinside.settled] at hrun
        cases hrun
      · rw [List.prefix_nil.mp he] at hne
        exact hne rfl

end JsonText

end Vaiexia.Lib
