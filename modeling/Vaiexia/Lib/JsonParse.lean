import Vaiexia.Lib.Json

/-!
# A JSON reader

A recursive-descent reader with `serde_json`'s recursion limit, and the proof that it
gives back what `Json.render` wrote (`Json.readsBack_parse`).

The recursion is on the nesting depth that is left; the loops over string characters, array
elements and object members carry a fuel `n` that the length of the whole text bounds.  The
round trip is proved level by level: `parseValue_render` assumes the values one level further
in read back and needs only that the text after a value cannot continue a number (`Stops`).
-/

namespace Vaiexia.Lib

namespace Json

/-- JSON's blanks. -/
def isBlank (c : Char) : Bool := c = ' ' || c = '\n' || c = '\t' || c = '\r'

def skipWs (cs : List Char) : List Char := cs.dropWhile isBlank

/-! ## Strings -/

def hexVal (c : Char) : Option Nat :=
  if '0' ≤ c ∧ c ≤ '9' then some (c.toNat - '0'.toNat)
  else if 'a' ≤ c ∧ c ≤ 'f' then some (c.toNat - 'a'.toNat + 10)
  else if 'A' ≤ c ∧ c ≤ 'F' then some (c.toNat - 'A'.toNat + 10)
  else none

/-- The value of four hexadecimal digits, and the text after them. -/
def hex4 : List Char → Option (Nat × List Char)
  | a :: b :: c :: d :: r => do
      let a ← hexVal a
      let b ← hexVal b
      let c ← hexVal c
      let d ← hexVal d
      some (((a * 16 + b) * 16 + c) * 16 + d, r)
  | _ => none

/-- The character after `\u`: a code unit, or a surrogate pair. -/
def unescapeUnicode (cs : List Char) : Option (Char × List Char) := do
  let (n, r) ← hex4 cs
  if n < 0xD800 ∨ 0xDFFF < n then some (Char.ofNat n, r)
  else if n < 0xDC00 then
    match r with
    | '\\' :: 'u' :: r => do
        let (m, r) ← hex4 r
        if 0xDC00 ≤ m ∧ m ≤ 0xDFFF then
          some (Char.ofNat (0x10000 + (n - 0xD800) * 0x400 + (m - 0xDC00)), r)
        else none
    | _ => none
  else none

/-- The character a letter stands for after a backslash. -/
def shortUnescape : Char → Option Char
  | '"' => some '"'
  | '\\' => some '\\'
  | '/' => some '/'
  | 'n' => some '\n'
  | 'r' => some '\r'
  | 't' => some '\t'
  | 'b' => some '\x08'
  | 'f' => some '\x0c'
  | _ => none

/-- The character after a backslash. -/
def unescape : List Char → Option (Char × List Char)
  | [] => none
  | c :: r => if c = 'u' then unescapeUnicode r else (shortUnescape c).map fun d ↦ (d, r)

/-- The characters of a string up to its closing quote, and the text after it. -/
def parseStr : Nat → List Char → Option (List Char × List Char)
  | 0, _ => none
  | _ + 1, [] => none
  | n + 1, c :: r =>
      if c = '"' then some ([], r)
      else if c = '\\' then do
        let (d, r) ← unescape r
        let (ds, r) ← parseStr n r
        some (d :: ds, r)
      else if c.toNat < 0x20 then none
      else do
        let (ds, r) ← parseStr n r
        some (c :: ds, r)

/-! ## Numbers -/

/-- The digits after `.`, after `e` or after `e±`, as far as they are there. -/
def parseFrac (cs : List Char) : Option (List Char × List Char) :=
  match cs with
  | '.' :: r =>
      let ds := r.takeWhile Char.isDigit
      if ds.isEmpty then none else some ('.' :: ds, r.dropWhile Char.isDigit)
  | _ => some ([], cs)

def parseExp (cs : List Char) : Option (List Char × List Char) :=
  match cs with
  | c :: r =>
      if c = 'e' ∨ c = 'E' then
        let sign := r.takeWhile fun d ↦ d = '+' || d = '-'
        let r := r.dropWhile fun d ↦ d = '+' || d = '-'
        let ds := r.takeWhile Char.isDigit
        if sign.length ≤ 1 ∧ ds ≠ [] then
          some (c :: sign ++ ds, r.dropWhile Char.isDigit)
        else none
      else some ([], cs)
  | [] => some ([], [])

/-- A number that is not negative. -/
def parseNat (cs : List Char) : Option (Json × List Char) := do
  let ds := cs.takeWhile Char.isDigit
  if ds = [] ∨ (1 < ds.length ∧ ds.head? = some '0') then none
  else
    let (frac, r) ← parseFrac (cs.dropWhile Char.isDigit)
    let (exp, r) ← parseExp r
    if frac = [] ∧ exp = [] ∧ Nat.ofDigitChars 10 ds 0 < 2 ^ 64 then
      some (uint (Nat.ofDigitChars 10 ds 0), r)
    else some (number (String.ofList (ds ++ frac ++ exp)), r)

/-- A number. -/
def parseNumber : List Char → Option (Json × List Char)
  | '-' :: r =>
      match parseNat r with
      | some (uint n, r) => some (number (String.ofList ('-' :: Nat.toDigits 10 n)), r)
      | some (number text, r) => some (number (String.ofList ('-' :: text.toList)), r)
      | _ => none
  | cs => parseNat cs

/-! ## Values -/

/-- A value that is neither an array nor an object. -/
def parseAtom (n : Nat) : List Char → Option (Json × List Char)
  | '"' :: r => do
      let (s, r) ← parseStr n r
      some (str (String.ofList s), r)
  | 'n' :: 'u' :: 'l' :: 'l' :: r => some (null, r)
  | 't' :: 'r' :: 'u' :: 'e' :: r => some (bool true, r)
  | 'f' :: 'a' :: 'l' :: 's' :: 'e' :: r => some (bool false, r)
  | cs => parseNumber cs

section

variable (p : List Char → Option (Json × List Char))

/-- The elements of an array, at least one, with its closing bracket. -/
def parseElems : Nat → List Char → Option (List Json × List Char)
  | 0, _ => none
  | n + 1, cs => do
      let (x, r) ← p cs
      match skipWs r with
      | ']' :: r => some ([x], r)
      | ',' :: r => do
          let (xs, r) ← parseElems n r
          some (x :: xs, r)
      | _ => none

/-- A member of an object. -/
def parseMember (n : Nat) (cs : List Char) : Option ((String × Json) × List Char) :=
  match skipWs cs with
  | '"' :: r => do
      let (key, r) ← parseStr n r
      match skipWs r with
      | ':' :: r => do
          let (v, r) ← p r
          some ((String.ofList key, v), r)
      | _ => none
  | _ => none

/-- The members of an object, at least one, with its closing brace. -/
def parseMembers (N : Nat) : Nat → List Char → Option (List (String × Json) × List Char)
  | 0, _ => none
  | n + 1, cs => do
      let (m, r) ← parseMember p N cs
      match skipWs r with
      | '}' :: r => some ([m], r)
      | ',' :: r => do
          let (ms, r) ← parseMembers N n r
          some (m :: ms, r)
      | _ => none

end

/-- A value nested at most `d` levels deep. -/
def parseValue (n : Nat) : Nat → List Char → Option (Json × List Char)
  | 0, cs => parseAtom n (skipWs cs)
  | d + 1, cs =>
      match skipWs cs with
      | '[' :: r =>
          match skipWs r with
          | ']' :: r => some (arr [], r)
          | r => (parseElems (parseValue n d) n r).map fun (xs, r) ↦ (arr xs, r)
      | '{' :: r =>
          match skipWs r with
          | '}' :: r => some (obj [], r)
          | r => (parseMembers (parseValue n d) n n r).map fun (ms, r) ↦ (obj ms, r)
      | cs => parseAtom n cs

/-- A whole text as one document. -/
def parse (cs : List Char) : Option Json :=
  match parseValue (cs.length + 1) 127 cs with
  | some (v, r) => if skipWs r = [] then some v else none
  | none => none

/-! ## Strings read back -/

@[simp] theorem skipWs_of_not_blank {c : Char} (h : isBlank c = false) (cs : List Char) :
    skipWs (c :: cs) = c :: cs := by simp [skipWs, h]

theorem hexVal_hexDigit {n : Nat} (h : n < 16) : hexVal (hexDigit n) = some n := by
  revert n
  decide

theorem shortUnescape_shortEscape {c e : Char} (h : shortEscape c = some e) :
    e ≠ 'u' ∧ shortUnescape e = some c := by
  unfold shortEscape at h
  split at h <;> first | (cases h; decide) | cases h

/-- A control character written as `\u00xx` reads back. -/
theorem unescapeUnicode_control {c : Char} (h : c.toNat < 0x20) (r : List Char) :
    unescapeUnicode ('0' :: '0' :: hexDigit (c.toNat / 16) :: hexDigit (c.toNat % 16) :: r)
      = some (c, r) := by
  have h₁ : hexVal (hexDigit (c.toNat / 16)) = some (c.toNat / 16) := hexVal_hexDigit (by omega)
  have h₂ : hexVal (hexDigit (c.toNat % 16)) = some (c.toNat % 16) :=
    hexVal_hexDigit (Nat.mod_lt _ (by decide))
  have h₀ : hexVal '0' = some 0 := by decide
  have hn : ((0 * 16 + 0) * 16 + c.toNat / 16) * 16 + c.toNat % 16 = c.toNat := by omega
  simp only [unescapeUnicode, hex4, h₀, h₁, h₂, hn, Option.bind_eq_bind, Option.bind_some]
  rw [if_pos (Or.inl (by omega)), Char.ofNat_toNat]

/-- One escaped character reads back. -/
theorem parseStr_escapeChar (n : Nat) (c : Char) (r : List Char) :
    parseStr (n + 1) (escapeChar c ++ r) =
      (parseStr n r).map fun p ↦ (c :: p.1, p.2) := by
  unfold escapeChar
  split
  · rename_i e he
    obtain ⟨hu, hback⟩ := shortUnescape_shortEscape he
    have hun : unescape (e :: r) = some (c, r) := by simp [unescape, hu, hback]
    simp only [List.cons_append, List.nil_append, parseStr, hun]
    cases hp : parseStr n r <;> simp [hp]
  · rename_i hshort
    have hq : c ≠ '"' := by rintro rfl; simp [shortEscape] at hshort
    have hb : c ≠ '\\' := by rintro rfl; simp [shortEscape] at hshort
    split
    · rename_i hctl
      have hun : unescape ('u' :: '0' :: '0' :: hexDigit (c.toNat / 16)
          :: hexDigit (c.toNat % 16) :: r) = some (c, r) := by
        simp [unescape, unescapeUnicode_control hctl]
      simp only [List.cons_append, List.nil_append, parseStr, hun]
      cases hp : parseStr n r <;> simp [hp]
    · rename_i hctl
      simp only [List.cons_append, List.nil_append, parseStr, if_neg hq, if_neg hb, if_neg hctl]
      cases parseStr n r <;> simp

/-- The characters of a string literal read back. -/
theorem parseStr_render {cs : List Char} {n : Nat} (h : cs.length < n) (r : List Char) :
    parseStr n (cs.flatMap escapeChar ++ '"' :: r) = some (cs, r) := by
  induction cs generalizing n with
  | nil =>
      obtain ⟨m, rfl⟩ : ∃ m, n = m + 1 := ⟨n - 1, by simp at h; omega⟩
      simp [parseStr]
  | cons c cs ih =>
      obtain ⟨m, rfl⟩ : ∃ m, n = m + 1 := ⟨n - 1, by simp at h; omega⟩
      have hlen : cs.length < m := by simpa using h
      rw [List.flatMap_cons, List.append_assoc, parseStr_escapeChar, ih hlen]
      rfl

/-! ## Numbers read back -/

/-- The text cannot continue a number. -/
def Stops (r : List Char) : Prop :=
  ∀ c ∈ r.head?, c.isDigit = false ∧ c ≠ '.' ∧ c ≠ 'e' ∧ c ≠ 'E'

theorem takeWhile_isDigit {ds r : List Char} (hds : ∀ c ∈ ds, c.isDigit = true)
    (hr : Stops r) : (ds ++ r).takeWhile Char.isDigit = ds := by
  rw [List.takeWhile_append_of_pos hds]
  cases r with
  | nil => simp
  | cons c r => simp [(hr c (by simp)).1]

theorem dropWhile_isDigit {ds r : List Char} (hds : ∀ c ∈ ds, c.isDigit = true)
    (hr : Stops r) : (ds ++ r).dropWhile Char.isDigit = r := by
  rw [List.dropWhile_append_of_pos hds]
  cases r with
  | nil => simp
  | cons c r => simp [(hr c (by simp)).1]

theorem parseFrac_of_stops {r : List Char} (hr : Stops r) : parseFrac r = some ([], r) := by
  cases r with
  | nil => rfl
  | cons c r =>
      have hc : c ≠ '.' := (hr c (by simp)).2.1
      unfold parseFrac
      split
      · rename_i heq
        exact absurd (List.cons.inj heq).1 hc
      · rfl

theorem parseExp_of_stops {r : List Char} (hr : Stops r) : parseExp r = some ([], r) := by
  cases r with
  | nil => rfl
  | cons c r =>
      have hc := (hr c (by simp)).2.2
      simp [parseExp, hc]

/-- A number with several digits does not begin with `0`. -/
theorem toDigits_head?_ne_zero {n : Nat} (h : 1 < (Nat.toDigits 10 n).length) :
    (Nat.toDigits 10 n).head? ≠ some '0' := by
  induction n using Nat.strongRecOn with
  | _ n ih =>
      by_cases hlt : n < 10
      · rw [Nat.toDigits_of_lt_base hlt] at h
        simp at h
      · rw [Nat.toDigits_of_base_le (by decide) (by omega)]
        have hne : Nat.toDigits 10 (n / 10) ≠ [] := Nat.toDigits_ne_nil
        rw [List.head?_append_of_ne_nil _ hne]
        by_cases hlen : 1 < (Nat.toDigits 10 (n / 10)).length
        · exact ih _ (by omega) hlen
        · have hsmall : n / 10 < 10 := by
            have hpos : 0 < (Nat.toDigits 10 (n / 10)).length := List.length_pos_iff.mpr hne
            have hle : (Nat.toDigits 10 (n / 10)).length ≤ 1 := by omega
            simpa using (Nat.length_toDigits_le_iff (by decide) (by decide)).mp hle
          have hpos : 0 < n / 10 := by omega
          rw [Nat.toDigits_of_lt_base hsmall]
          generalize n / 10 = k at hsmall hpos
          revert k
          decide

theorem isDigit_of_mem {n : Nat} : ∀ c ∈ Nat.toDigits 10 n, c.isDigit = true := fun _ hc ↦
  Nat.isDigit_of_mem_toDigits (by decide) (by decide) hc

/-- A 64-bit integer reads back. -/
theorem parseNat_toDigits {n : Nat} (hn : n < 2 ^ 64) {r : List Char} (hr : Stops r) :
    parseNat (Nat.toDigits 10 n ++ r) = some (uint n, r) := by
  have hok : ¬ (Nat.toDigits 10 n = [] ∨
      (1 < (Nat.toDigits 10 n).length ∧ (Nat.toDigits 10 n).head? = some '0')) := by
    rintro (h | ⟨h, h0⟩)
    · exact Nat.toDigits_ne_nil h
    · exact toDigits_head?_ne_zero h h0
  unfold parseNat
  simp only [takeWhile_isDigit isDigit_of_mem hr, dropWhile_isDigit isDigit_of_mem hr,
    parseFrac_of_stops hr, parseExp_of_stops hr, if_neg hok, Option.bind_eq_bind,
    Option.bind_some, Nat.ofDigitChars_ten_toDigits, hn, and_self, if_true]

/-! ## Values read back -/

theorem length_le_flatMap_escapeChar (cs : List Char) :
    cs.length ≤ (cs.flatMap escapeChar).length := by
  induction cs with
  | nil => simp
  | cons c cs ih =>
      have hc : 1 ≤ (escapeChar c).length := by
        unfold escapeChar
        split
        · simp
        · split <;> simp
      simp only [List.flatMap_cons, List.length_append, List.length_cons]
      omega

/-- A string literal reads back once its opening quote is taken off. -/
theorem parseStr_renderStr {s : String} {n : Nat} (h : (renderStr s).length < n) (r : List Char) :
    ∃ rest, renderStr s ++ r = '"' :: rest ∧ parseStr n rest = some (s.toList, r) := by
  refine ⟨s.toList.flatMap escapeChar ++ '"' :: r, by simp [renderStr], ?_⟩
  apply parseStr_render
  have hlen := length_le_flatMap_escapeChar s.toList
  simp only [renderStr, List.length_append, List.length_cons] at h
  omega

/-- A rendered value begins with a character that is neither blank nor a closing bracket. -/
theorem render_head {d : Nat} {v : Json} (hv : ReadableIn d v) :
    ∃ c cs, v.render = c :: cs ∧ isBlank c = false ∧ c ≠ ']' := by
  cases v with
  | null => exact ⟨'n', "ull".toList, by simp [render], by decide, by decide⟩
  | bool b =>
      cases b with
      | true => exact ⟨'t', "rue".toList, by simp [render], by decide, by decide⟩
      | false => exact ⟨'f', "alse".toList, by simp [render], by decide, by decide⟩
  | uint n =>
      obtain ⟨c, cs, hc⟩ := List.exists_cons_of_ne_nil (Nat.toDigits_ne_nil (n := n) (b := 10))
      have hd : c.isDigit = true := isDigit_of_mem c (hc ▸ List.mem_cons_self)
      refine ⟨c, cs, by simpa [render] using hc, ?_, ?_⟩
      · rw [Bool.eq_false_iff]
        intro hb
        simp only [isBlank, Bool.or_eq_true, decide_eq_true_eq] at hb
        rcases hb with ((rfl | rfl) | rfl) | rfl <;> simp at hd
      · rintro rfl
        simp at hd
  | number text => cases d <;> exact absurd hv id
  | str s => exact ⟨'"', _, by rw [render, renderStr, List.cons_append], by decide, by decide⟩
  | arr xs => exact ⟨'[', _, by rw [render, List.cons_append], by decide, by decide⟩
  | obj ms => exact ⟨'{', _, by rw [render, List.cons_append], by decide, by decide⟩

theorem render_ne_nil {d : Nat} {v : Json} (hv : ReadableIn d v) : v.render ≠ [] := by
  obtain ⟨c, cs, h, -, -⟩ := render_head hv
  simp [h]

theorem length_le_renderArr {d : Nat} {xs : List Json} (h : ∀ x ∈ xs, ReadableIn d x) :
    xs.length ≤ (renderArr xs).length := by
  induction xs with
  | nil => simp
  | cons x xs ih =>
      have hx : 1 ≤ x.render.length := List.length_pos_iff.mpr (render_ne_nil (h x (by simp)))
      have hxs : xs.length ≤ (renderArr xs).length := ih fun y hy ↦ h y (by simp [hy])
      cases xs with
      | nil => simpa [renderArr] using hx
      | cons y ys =>
          simp only [renderArr, List.length_append, List.length_cons] at hxs ⊢
          omega

theorem length_le_renderObj (ms : List (String × Json)) :
    ms.length ≤ (renderObj ms).length := by
  induction ms with
  | nil => simp
  | cons m ms ih =>
      have hm : 1 ≤ (renderMember m).length := by
        obtain ⟨key, v⟩ := m
        simp only [renderMember, List.length_append, List.length_cons]
        omega
      cases ms with
      | nil => simpa [renderObj] using hm
      | cons k ks =>
          simp only [renderObj, List.length_append, List.length_cons] at ih ⊢
          omega

theorem stops_of_head {c : Char} {r : List Char}
    (h : c = ',' ∨ c = ']' ∨ c = '}' := by decide) : Stops (c :: r) := by
  intro d hd
  obtain rfl : c = d := by simpa using hd
  rcases h with rfl | rfl | rfl <;> decide

/-- Atoms read back. -/
theorem parseAtom_uint {n m : Nat} (hm : m < 2 ^ 64) {r : List Char} (hr : Stops r) :
    parseAtom n (Nat.toDigits 10 m ++ r) = some (uint m, r) := by
  obtain ⟨c, cs, hc⟩ := List.exists_cons_of_ne_nil (Nat.toDigits_ne_nil (n := m) (b := 10))
  have hd : c.isDigit = true := isDigit_of_mem c (hc ▸ List.mem_cons_self)
  have hnum : parseAtom n (c :: (cs ++ r)) = parseNat (c :: (cs ++ r)) := by
    unfold parseAtom
    split
    all_goals first
      | (rename_i heq; rw [(List.cons.inj heq).1] at hd; simp at hd)
      | skip
    unfold parseNumber
    split
    · rename_i heq
      rw [(List.cons.inj heq).1] at hd
      simp at hd
    · rfl
  have hread := parseNat_toDigits hm hr
  rw [hc, List.cons_append] at hread ⊢
  rw [hnum, hread]

section

variable {p : List Char → Option (Json × List Char)} {d N : Nat}

/-- The elements of an array read back if each of them does. -/
theorem parseElems_render (hp : ∀ v r, ReadableIn d v → v.render.length < N → Stops r →
      p (v.render ++ r) = some (v, r)) :
    ∀ (xs : List Json) (n : Nat) (r : List Char), xs ≠ [] → xs.length ≤ n →
      (∀ x ∈ xs, ReadableIn d x) → (renderArr xs).length < N →
      parseElems p n (renderArr xs ++ ']' :: r) = some (xs, r) := by
  intro xs
  induction xs with
  | nil => intro n r hne; exact absurd rfl hne
  | cons x xs ih =>
      intro n r _ hn hxs hlen
      obtain ⟨n, rfl⟩ : ∃ m, n = m + 1 := ⟨n - 1, by simp at hn; omega⟩
      have hx : ReadableIn d x := hxs x (by simp)
      cases xs with
      | nil =>
          have hlen' : x.render.length < N := by simpa [renderArr] using hlen
          have hpx := hp x (']' :: r) hx hlen' stops_of_head
          simp [renderArr, parseElems, hpx, isBlank]
      | cons y ys =>
          simp only [renderArr, List.length_append, List.length_cons] at hlen
          have hpx := hp x (',' :: (renderArr (y :: ys) ++ ']' :: r)) hx (by omega) stops_of_head
          have hrest := ih n r (by simp) (by simpa using hn)
            (fun z hz ↦ hxs z (List.mem_cons_of_mem x hz)) (by omega)
          simp only [renderArr, List.append_assoc, List.cons_append, parseElems, hpx,
            Option.bind_eq_bind, Option.bind_some,
            skipWs_of_not_blank (by decide : isBlank ',' = false),
            hrest]

/-- A member of an object reads back if its value does. -/
theorem parseMember_render (hp : ∀ v r, ReadableIn d v → v.render.length < N → Stops r →
      p (v.render ++ r) = some (v, r)) {m : String × Json} {r : List Char}
    (hm : ReadableIn d m.2) (hlen : (renderMember m).length < N) (hr : Stops r) :
    parseMember p N (renderMember m ++ r) = some (m, r) := by
  obtain ⟨key, v⟩ := m
  simp only [renderMember, List.length_append, List.length_cons] at hlen
  obtain ⟨rest, happ, hkey⟩ :=
    parseStr_renderStr (s := key) (n := N) (by omega) (':' :: (v.render ++ r))
  have hpv := hp v r hm (by omega) hr
  simp only [renderMember, List.append_assoc, List.cons_append, happ, parseMember,
    skipWs_of_not_blank (by decide : isBlank '"' = false), hkey, Option.bind_eq_bind,
    Option.bind_some, skipWs_of_not_blank (by decide : isBlank ':' = false), hpv,
    String.ofList_toList]

/-- The members of an object read back if each of their values does. -/
theorem parseMembers_render (hp : ∀ v r, ReadableIn d v → v.render.length < N → Stops r →
      p (v.render ++ r) = some (v, r)) :
    ∀ (ms : List (String × Json)) (n : Nat) (r : List Char), ms ≠ [] → ms.length ≤ n →
      (∀ m ∈ ms, ReadableIn d m.2) → (renderObj ms).length < N →
      parseMembers p N n (renderObj ms ++ '}' :: r) = some (ms, r) := by
  intro ms
  induction ms with
  | nil => intro n r hne; exact absurd rfl hne
  | cons m ms ih =>
      intro n r _ hn hms hlen
      obtain ⟨n, rfl⟩ : ∃ k, n = k + 1 := ⟨n - 1, by simp at hn; omega⟩
      have hm : ReadableIn d m.2 := hms m (by simp)
      cases ms with
      | nil =>
          have hlen' : (renderMember m).length < N := by simpa [renderObj] using hlen
          have hpm := parseMember_render hp hm hlen' (stops_of_head (c := '}') (r := r))
          simp [renderObj, parseMembers, hpm, isBlank]
      | cons k ks =>
          simp only [renderObj, List.length_append, List.length_cons] at hlen
          have hpm := parseMember_render hp hm (by omega)
            (stops_of_head (c := ',') (r := renderObj (k :: ks) ++ '}' :: r))
          have hrest := ih n r (by simp) (by simpa using hn)
            (fun z hz ↦ hms z (List.mem_cons_of_mem m hz)) (by omega)
          simp only [renderObj, List.append_assoc, List.cons_append, parseMembers, hpm,
            Option.bind_eq_bind, Option.bind_some,
            skipWs_of_not_blank (by decide : isBlank ',' = false), hrest]

end

/-- A value other than an array or an object reads back. -/
theorem parseAtom_render {n d : Nat} {v : Json} {r : List Char} (hv : ReadableIn d v)
    (hlen : v.render.length < n) (hr : Stops r) (harr : ∀ xs, v ≠ arr xs)
    (hobj : ∀ ms, v ≠ obj ms) : parseAtom n (v.render ++ r) = some (v, r) := by
  cases v with
  | null => simp [render, parseAtom]
  | bool b => cases b <;> simp [render, parseAtom]
  | uint m =>
      have hm : m < 2 ^ 64 := by cases d <;> exact hv
      simpa only [render] using parseAtom_uint hm hr
  | number text => cases d <;> exact absurd hv id
  | str s =>
      obtain ⟨rest, happ, hs⟩ := parseStr_renderStr (s := s) (by simpa only [render] using hlen) r
      simp only [render, happ, parseAtom, hs, Option.bind_eq_bind, Option.bind_some,
        String.ofList_toList]
  | arr xs => exact absurd rfl (harr xs)
  | obj ms => exact absurd rfl (hobj ms)

/-- The text of a value is left alone by `skipWs`. -/
theorem skipWs_render {d : Nat} {v : Json} (hv : ReadableIn d v) (r : List Char) :
    skipWs (v.render ++ r) = v.render ++ r := by
  obtain ⟨c, cs, h, hc, -⟩ := render_head hv
  rw [h, List.cons_append, skipWs_of_not_blank hc]

/-- With levels left, a text that begins with no bracket is an atom. -/
theorem parseValue_succ_of_head {n d : Nat} {c : Char} {cs : List Char}
    (hc : isBlank c = false) (h₁ : c ≠ '[') (h₂ : c ≠ '{') :
    parseValue n (d + 1) (c :: cs) = parseAtom n (c :: cs) := by
  rw [parseValue, skipWs_of_not_blank hc]
  split
  · rename_i heq; exact absurd (List.cons.inj heq).1 h₁
  · rename_i heq; exact absurd (List.cons.inj heq).1 h₂
  · rfl

/-- A level of nesting is left untouched by a value that is no array and no object. -/
theorem parseValue_succ_atom {n d : Nat} {v : Json} {r : List Char} (hv : ReadableIn (d + 1) v)
    (harr : ∀ xs, v ≠ arr xs) (hobj : ∀ ms, v ≠ obj ms) :
    parseValue n (d + 1) (v.render ++ r) = parseAtom n (v.render ++ r) := by
  obtain ⟨c, cs, hc, hblank, -⟩ := render_head hv
  rw [hc, List.cons_append]
  refine parseValue_succ_of_head hblank ?_ ?_
  all_goals
    rintro rfl
    cases v with
    | null => simp [render] at hc
    | bool b => cases b <;> simp [render] at hc
    | uint m =>
        have hd := isDigit_of_mem (n := m) _ (by rw [← render, hc]; exact List.mem_cons_self)
        simp at hd
    | number text => exact hv
    | str s => simp [render, renderStr] at hc
    | arr xs => exact harr xs rfl
    | obj ms => exact hobj ms rfl

/-- The rendered elements begin with the first one. -/
theorem renderArr_cons (x : Json) (xs : List Json) (r : List Char) :
    ∃ t, renderArr (x :: xs) ++ r = x.render ++ t := by
  cases xs with
  | nil => exact ⟨r, by rw [renderArr]⟩
  | cons y ys => exact ⟨',' :: renderArr (y :: ys) ++ r, by simp [renderArr]⟩

/-- The rendered members begin with a quote. -/
theorem renderObj_cons (m : String × Json) (ms : List (String × Json)) (r : List Char) :
    ∃ t, renderObj (m :: ms) ++ r = '"' :: t := by
  obtain ⟨key, v⟩ := m
  have hm : ∃ t, renderMember (key, v) = '"' :: t := ⟨_, by
    rw [renderMember, renderStr, List.cons_append, List.cons_append]⟩
  obtain ⟨t, ht⟩ := hm
  cases ms with
  | nil => exact ⟨t ++ r, by rw [renderObj, ht, List.cons_append]⟩
  | cons k ks => exact ⟨t ++ ',' :: renderObj (k :: ks) ++ r, by simp [renderObj, ht]⟩

/-- **Values read back**, one nesting level at a time. -/
theorem parseValue_render (n : Nat) : ∀ (d : Nat) (v : Json) (r : List Char),
    ReadableIn d v → v.render.length < n → Stops r →
      parseValue n d (v.render ++ r) = some (v, r) := by
  intro d
  induction d with
  | zero =>
      intro v r hv hlen hr
      rw [parseValue, skipWs_render hv]
      refine parseAtom_render hv hlen hr ?_ ?_
      · rintro xs rfl; exact hv
      · rintro ms rfl; exact hv
  | succ d ih =>
      intro v r hv hlen hr
      cases v with
      | arr xs =>
          simp only [render, List.length_append, List.length_cons] at hlen
          simp only [render, List.cons_append, List.append_assoc, List.nil_append, parseValue,
            skipWs_of_not_blank (by decide : isBlank '[' = false)]
          cases xs with
          | nil => simp [renderArr, isBlank]
          | cons x xs =>
              have hread := parseElems_render ih (x :: xs) n r (by simp)
                (by have := length_le_renderArr hv; omega) hv (by omega)
              obtain ⟨c, cs, hc, hblank, hclose⟩ := render_head (hv x (by simp))
              obtain ⟨t, ht⟩ := renderArr_cons x xs (']' :: r)
              rw [ht, hc, List.cons_append] at hread ⊢
              rw [skipWs_of_not_blank hblank]
              split
              · rename_i heq; exact absurd (List.cons.inj heq).1 hclose
              · rw [hread]; rfl
      | obj ms =>
          simp only [render, List.length_append, List.length_cons] at hlen
          simp only [render, List.cons_append, List.append_assoc, List.nil_append, parseValue,
            skipWs_of_not_blank (by decide : isBlank '{' = false)]
          cases ms with
          | nil => simp [renderObj, isBlank]
          | cons m ms =>
              have hread := parseMembers_render ih (m :: ms) n r (by simp)
                (by have := length_le_renderObj (m :: ms); omega) hv (by omega)
              obtain ⟨t, ht⟩ := renderObj_cons m ms ('}' :: r)
              rw [ht] at hread ⊢
              rw [skipWs_of_not_blank (by decide : isBlank '"' = false)]
              simp [hread]
      | _ =>
          rw [parseValue_succ_atom hv (by simp) (by simp)]
          exact parseAtom_render hv hlen hr (by simp) (by simp)

/-- `parse` gives back what `render` wrote. -/
theorem readsBack_parse : ReadsBack parse := by
  intro v hv
  have hstop : Stops [] := by intro c hc; cases hc
  have h := parseValue_render (v.render.length + 1) 127 v [] hv (by omega) hstop
  rw [List.append_nil] at h
  simp [parse, h, skipWs]

end Json

end Vaiexia.Lib
