import Vaiexia.Lib.Text

/-!
# JSON documents and their compact rendering

`Json` is the tree of a JSON document, with the members of an object in the order of the text
and repeated names kept.  The accessors read it the way `serde_json::Value` does, where the last
of several members of one name wins; a typed reader that refuses repeated names can see them.

`render` is the compact writer of `serde_json`: no blanks, `"` and `\` escaped, control
characters below `U+0020` escaped by letter or as `\u00xx`, everything else as it is.

A reader is not fixed here.  What a program may rely on is `ReadsBack`: text written by `render`
reads back as the tree it was written from, for the trees a writer can produce within the
reader's limits (`Readable`: numbers of 64 bits, nesting below 128).
`Vaiexia/Lib/JsonParse.lean` has a reader of which this is proved.
-/

namespace Vaiexia.Lib

/-- A JSON document. -/
inductive Json where
  | null
  | bool (b : Bool)
  /-- A non-negative integer. -/
  | uint (n : Nat)
  /-- A number of any other shape, by its text. -/
  | number (text : String)
  | str (s : String)
  | arr (xs : List Json)
  | obj (members : List (String × Json))

namespace Json

/-! ## Reading a tree -/

/-- `Value::get`: the member of that name, the last one if there are several. -/
def get? (v : Json) (key : String) : Option Json :=
  match v with
  | obj members => (members.reverse.find? fun m ↦ m.1 == key).map Prod.snd
  | _ => none

/-- `Value` indexing: like `get?`, with `null` for a member that is missing. -/
def getD (v : Json) (key : String) : Json := (v.get? key).getD null

/-- `Value::as_u64`. -/
def asU64 : Json → Option Nat
  | uint n => if n < 2 ^ 64 then some n else none
  | _ => none

/-- `Value::as_str`. -/
def asStr : Json → Option String
  | str s => some s
  | _ => none

/-- Reading a member of an object whose member names differ. -/
theorem get?_obj_of_mem {members : List (String × Json)} {key : String} {v : Json}
    (hnd : (members.map Prod.fst).Nodup) (hm : (key, v) ∈ members) :
    (obj members).get? key = some v := by
  have hfind : members.reverse.find? (fun m ↦ m.1 == key) = some (key, v) := by
    rw [List.find?_eq_some_iff_append]
    obtain ⟨pre, post, hsplit⟩ := List.append_of_mem hm
    refine ⟨by simp, post.reverse, pre.reverse, by simp [hsplit], ?_⟩
    intro m hmem
    have hne : m.1 ≠ key := by
      rintro rfl
      rw [hsplit, List.map_append, List.map_cons] at hnd
      have hnd' := (List.nodup_cons.mp (List.nodup_append.mp hnd).2.1).1
      exact hnd' (List.mem_map.mpr ⟨m, List.mem_reverse.mp hmem, rfl⟩)
    simpa using hne
  simp [get?, hfind]

/-! ## Rendering -/

/-- One lowercase hexadecimal digit. -/
def hexDigit (n : Nat) : Char := Nat.digitChar n

/-- The letter that stands for a character after a backslash, if it has one. -/
def shortEscape : Char → Option Char
  | '"' => some '"'
  | '\\' => some '\\'
  | '\n' => some 'n'
  | '\r' => some 'r'
  | '\t' => some 't'
  | '\x08' => some 'b'
  | '\x0c' => some 'f'
  | _ => none

/-- The characters that stand for `c` inside a JSON string. -/
def escapeChar (c : Char) : List Char :=
  match shortEscape c with
  | some e => ['\\', e]
  | none =>
      if c.toNat < 0x20 then
        ['\\', 'u', '0', '0', hexDigit (c.toNat / 16), hexDigit (c.toNat % 16)]
      else [c]

/-- A JSON string literal. -/
def renderStr (s : String) : List Char := '"' :: s.toList.flatMap escapeChar ++ ['"']

mutual

/-- `serde_json::to_string`. -/
def render : Json → List Char
  | null => "null".toList
  | bool b => (if b then "true" else "false").toList
  | uint n => Nat.toDigits 10 n
  | number text => text.toList
  | str s => renderStr s
  | arr xs => '[' :: renderArr xs ++ [']']
  | obj members => '{' :: renderObj members ++ ['}']

/-- The elements of an array, separated by commas. -/
def renderArr : List Json → List Char
  | [] => []
  | [x] => x.render
  | x :: xs => x.render ++ ',' :: renderArr xs

/-- The members of an object, separated by commas. -/
def renderObj : List (String × Json) → List Char
  | [] => []
  | [m] => renderMember m
  | m :: ms => renderMember m ++ ',' :: renderObj ms

/-- One member of an object. -/
def renderMember : String × Json → List Char
  | (key, v) => renderStr key ++ ':' :: v.render

end

/-- Two lists of members, separated by a comma. -/
theorem renderObj_append {ms ks : List (String × Json)} (hms : ms ≠ []) (hks : ks ≠ []) :
    renderObj (ms ++ ks) = renderObj ms ++ ',' :: renderObj ks := by
  induction ms with
  | nil => exact absurd rfl hms
  | cons m ms ih =>
      cases ms with
      | nil =>
          obtain ⟨k, ks, rfl⟩ := List.exists_cons_of_ne_nil hks
          rfl
      | cons m' ms => simpa [renderObj] using ih (by simp)

/-! ## Reading back -/

/-- The documents nested at most `d` levels deep whose numbers are 64-bit integers. -/
def ReadableIn : Nat → Json → Prop
  | _, null | _, bool _ | _, str _ => True
  | _, uint n => n < 2 ^ 64
  | _, number _ => False
  | 0, arr _ | 0, obj _ => False
  | d + 1, arr xs => ∀ x ∈ xs, ReadableIn d x
  | d + 1, obj members => ∀ m ∈ members, ReadableIn d m.2

/-- The documents a reader with `serde_json`'s recursion limit gives back. -/
abbrev Readable (v : Json) : Prop := ReadableIn 127 v

/-- A reader that gives back what `render` wrote. -/
def ReadsBack (fromStr : List Char → Option Json) : Prop :=
  ∀ v : Json, v.Readable → fromStr v.render = some v

/-! ## The characters of a rendered document -/

theorem hexDigit_not_control {n : Nat} (h : n < 16) : 0x20 ≤ (hexDigit n).toNat := by
  revert n
  decide

theorem shortEscape_not_control {c e : Char} (h : shortEscape c = some e) : 0x20 ≤ e.toNat := by
  unfold shortEscape at h
  split at h <;> first | (cases h; decide) | cases h

/-- No control character survives escaping. -/
theorem escapeChar_not_control {c d : Char} (h : d ∈ escapeChar c) : 0x20 ≤ d.toNat := by
  unfold escapeChar at h
  split at h
  · rename_i e he
    rcases List.mem_pair.mp h with rfl | rfl
    · decide
    · exact shortEscape_not_control he
  · split at h
    · rename_i hlt
      have h16 : c.toNat / 16 < 16 := by omega
      simp only [List.mem_cons, List.not_mem_nil, or_false] at h
      rcases h with rfl | rfl | rfl | rfl | rfl | rfl
      · decide
      · decide
      · decide
      · decide
      · exact hexDigit_not_control h16
      · exact hexDigit_not_control (Nat.mod_lt _ (by decide))
    · rename_i hge
      rw [List.mem_singleton.mp h]
      omega

theorem renderStr_not_control {s : String} {d : Char} (h : d ∈ renderStr s) :
    0x20 ≤ d.toNat := by
  simp only [renderStr, List.cons_append, List.mem_cons, List.mem_append, List.mem_flatMap,
    List.not_mem_nil, or_false] at h
  rcases h with rfl | ⟨c, _, hd⟩ | rfl
  · decide
  · exact escapeChar_not_control hd
  · decide

/-- The characters of a list of rendered elements come from its elements, or separate them. -/
theorem mem_renderArr {c : Char} : ∀ {xs : List Json}, c ∈ renderArr xs →
    c = ',' ∨ ∃ x ∈ xs, c ∈ x.render
  | [], h => by simp [renderArr] at h
  | [x], h => .inr ⟨x, by simp, by simpa [renderArr] using h⟩
  | x :: y :: ys, h => by
      simp only [renderArr, List.mem_append, List.mem_cons] at h
      rcases h with h | rfl | h
      · exact .inr ⟨x, by simp, h⟩
      · exact .inl rfl
      · rcases mem_renderArr h with h | ⟨z, hz, hc⟩
        · exact .inl h
        · exact .inr ⟨z, List.mem_cons_of_mem x hz, hc⟩

/-- The characters of rendered members come from one of them, or separate them. -/
theorem mem_renderObj {c : Char} : ∀ {ms : List (String × Json)}, c ∈ renderObj ms →
    c = ',' ∨ ∃ m ∈ ms, c ∈ renderMember m
  | [], h => by simp [renderObj] at h
  | [m], h => .inr ⟨m, by simp, by simpa [renderObj] using h⟩
  | m :: k :: ks, h => by
      simp only [renderObj, List.mem_append, List.mem_cons] at h
      rcases h with h | rfl | h
      · exact .inr ⟨m, by simp, h⟩
      · exact .inl rfl
      · rcases mem_renderObj h with h | ⟨z, hz, hc⟩
        · exact .inl h
        · exact .inr ⟨z, List.mem_cons_of_mem m hz, hc⟩

theorem renderAtom_not_control {d : Nat} {v : Json} (hv : ReadableIn d v)
    (harr : ∀ xs, v ≠ arr xs) (hobj : ∀ ms, v ≠ obj ms) : ∀ c ∈ v.render, 0x20 ≤ c.toNat := by
  intro c hc
  have hall : ∀ l : List Char, (l.all fun c ↦ decide (0x20 ≤ c.toNat)) = true → c ∈ l →
      0x20 ≤ c.toNat := fun l hl hcl ↦ of_decide_eq_true (List.all_eq_true.mp hl c hcl)
  cases v with
  | null => exact hall _ (by decide) hc
  | bool b => cases b <;> exact hall _ (by decide) hc
  | uint n =>
      have hd := Nat.isDigit_of_mem_toDigits (by decide) (by decide) hc
      simp only [Char.isDigit, Bool.and_eq_true, decide_eq_true_eq, ge_iff_le,
        UInt32.le_iff_toNat_le] at hd
      exact Nat.le_trans (by decide) hd.1
  | number text => cases d <;> exact absurd hv id
  | str s => exact renderStr_not_control hc
  | arr xs => exact absurd rfl (harr xs)
  | obj ms => exact absurd rfl (hobj ms)

/-- A rendered document has no control character below `U+0020`, so it is one line. -/
theorem render_not_control : ∀ {d : Nat} {v : Json}, ReadableIn d v →
    ∀ c ∈ v.render, 0x20 ≤ c.toNat := by
  intro d
  induction d with
  | zero =>
      intro v hv
      refine renderAtom_not_control hv ?_ ?_
      · rintro xs rfl; exact hv
      · rintro ms rfl; exact hv
  | succ d ih =>
      intro v hv c hc
      cases v with
      | arr xs =>
          simp only [render, List.cons_append, List.mem_cons, List.mem_append,
            List.not_mem_nil, or_false] at hc
          rcases hc with rfl | hc | rfl
          · decide
          · rcases mem_renderArr hc with rfl | ⟨x, hx, hcx⟩
            · decide
            · exact ih (hv x hx) c hcx
          · decide
      | obj ms =>
          simp only [render, List.cons_append, List.mem_cons, List.mem_append,
            List.not_mem_nil, or_false] at hc
          rcases hc with rfl | hc | rfl
          · decide
          · rcases mem_renderObj hc with rfl | ⟨m, hm, hcm⟩
            · decide
            · obtain ⟨key, v⟩ := m
              simp only [renderMember, List.mem_append, List.mem_cons] at hcm
              rcases hcm with hcm | rfl | hcm
              · exact renderStr_not_control hcm
              · decide
              · exact ih (hv _ hm) c hcm
          · decide
      | _ => exact renderAtom_not_control hv (by simp) (by simp) c hc

/-! ## The length of a rendered document -/

open Utf8

theorem utf8Size_of_toNat_lt {c : Char} (h : c.toNat < 0x80) : c.utf8Size = 1 := by
  rw [Char.utf8Size, if_pos]
  rw [UInt32.le_iff_toNat_le]
  exact Nat.le_of_lt_succ h

theorem shortEscape_utf8Size {c e : Char} (h : shortEscape c = some e) : e.utf8Size = 1 := by
  unfold shortEscape at h
  split at h <;> first | (cases h; decide) | cases h

/-- Outside the control characters escaping costs at most one backslash. -/
theorem byteLen_escapeChar_le {c : Char} (h : 0x20 ≤ c.toNat) : byteLen (escapeChar c) ≤ 4 := by
  unfold escapeChar
  split
  · rename_i e he
    have hb : ('\\' : Char).utf8Size = 1 := by decide
    simp [shortEscape_utf8Size he, hb]
  · rw [if_neg (by omega)]
    simpa using c.utf8Size_le_four

/-- A string without control characters takes at most four bytes a character. -/
theorem byteLen_renderStr_le {s : String} (h : ∀ c ∈ s.toList, 0x20 ≤ c.toNat) :
    byteLen (renderStr s) ≤ 4 * s.toList.length + 2 := by
  have hq : ('"' : Char).utf8Size = 1 := by decide
  have hbody : ∀ cs : List Char, (∀ c ∈ cs, 0x20 ≤ c.toNat) →
      byteLen (cs.flatMap escapeChar) ≤ 4 * cs.length := by
    intro cs hcs
    induction cs with
    | nil => simp
    | cons c cs ih =>
        have hc := byteLen_escapeChar_le (hcs c (by simp))
        have hrest := ih fun d hd ↦ hcs d (by simp [hd])
        simp only [List.flatMap_cons, byteLen_append, List.length_cons]
        omega
  have hs := hbody s.toList h
  simp only [renderStr, List.cons_append, byteLen_cons, byteLen_append, byteLen_nil, hq]
  omega

/-- Any character takes at most six times its bytes. -/
theorem byteLen_escapeChar_le_mul (c : Char) : byteLen (escapeChar c) ≤ 6 * c.utf8Size := by
  have hpos := c.utf8Size_pos
  have hb : ('\\' : Char).utf8Size = 1 := by decide
  unfold escapeChar
  split
  · rename_i e he
    simp only [byteLen_cons, byteLen_nil, shortEscape_utf8Size he, hb]
    omega
  · split
    · have hdigit : ∀ n : Fin 16, (hexDigit n).utf8Size = 1 := by decide
      have hu : ('u' : Char).utf8Size = 1 := by decide
      have h0 : ('0' : Char).utf8Size = 1 := by decide
      have h₁ : (hexDigit (c.toNat / 16)).utf8Size = 1 := hdigit ⟨c.toNat / 16, by omega⟩
      have h₂ : (hexDigit (c.toNat % 16)).utf8Size = 1 :=
        hdigit ⟨c.toNat % 16, Nat.mod_lt _ (by decide)⟩
      simp only [byteLen_cons, byteLen_nil, hb, hu, h0, h₁, h₂]
      omega
    · simp only [byteLen_cons, byteLen_nil]
      omega

/-- And so does any string, with its quotes. -/
theorem byteLen_renderStr_le_mul (s : String) :
    byteLen (renderStr s) ≤ 6 * byteLen s.toList + 2 := by
  have hq : ('"' : Char).utf8Size = 1 := by decide
  have hbody : ∀ cs : List Char, byteLen (cs.flatMap escapeChar) ≤ 6 * byteLen cs := by
    intro cs
    induction cs with
    | nil => exact Nat.le_refl 0
    | cons c cs ih =>
        have hc := byteLen_escapeChar_le_mul c
        rw [List.flatMap_cons, byteLen_append, byteLen_cons]
        omega
  have hs := hbody s.toList
  simp only [renderStr, List.cons_append, byteLen_cons, byteLen_append, byteLen_nil, hq]
  omega

/-- A string none of whose characters is escaped stands between its quotes as it is. -/
theorem renderStr_of_plain {s : String} (h : ∀ c ∈ s.toList, escapeChar c = [c]) :
    renderStr s = '"' :: s.toList ++ ['"'] := by
  have hbody : ∀ cs : List Char, (∀ c ∈ cs, escapeChar c = [c]) → cs.flatMap escapeChar = cs := by
    intro cs hcs
    induction cs with
    | nil => rfl
    | cons c cs ih =>
        rw [List.flatMap_cons, hcs c (by simp), ih fun d hd ↦ hcs d (by simp [hd])]
        rfl
  rw [renderStr, hbody s.toList h]

/-- It takes its own bytes and two quotes. -/
theorem byteLen_renderStr_of_plain {s : String} (h : ∀ c ∈ s.toList, escapeChar c = [c]) :
    byteLen (renderStr s) = byteLen s.toList + 2 := by
  have hq : ('"' : Char).utf8Size = 1 := by decide
  simp only [renderStr_of_plain h, List.cons_append, byteLen_cons, byteLen_append, byteLen_nil,
    hq]
  omega

theorem byteLen_toDigits (n : Nat) :
    byteLen (Nat.toDigits 10 n) = (Nat.toDigits 10 n).length := by
  refine byteLen_eq_length fun c hc ↦ utf8Size_of_toNat_lt ?_
  have hd := Nat.isDigit_of_mem_toDigits (by decide) (by decide) hc
  simp only [Char.isDigit, Bool.and_eq_true, decide_eq_true_eq, UInt32.le_iff_toNat_le] at hd
  exact Nat.lt_of_le_of_lt hd.2 (by decide)

/-- A 64-bit integer takes at most twenty digits. -/
theorem byteLen_uint_le {n : Nat} (h : n < 2 ^ 64) : byteLen (render (uint n)) ≤ 20 := by
  rw [render, byteLen_toDigits]
  exact (Nat.length_toDigits_le_iff (by decide) (by decide)).mpr (Nat.lt_of_lt_of_le h (by decide))

/-- The bytes of an object's member and of the comma after it. -/
def memberBytes (m : String × Json) : Nat := byteLen (renderMember m) + 1

/-- Rendered members take no more than the bytes of each of them. -/
theorem byteLen_renderObj_le (ms : List (String × Json)) :
    byteLen (renderObj ms) ≤ (ms.map memberBytes).sum := by
  have hc : (',' : Char).utf8Size = 1 := by decide
  induction ms with
  | nil => simp [renderObj]
  | cons m ms ih =>
      cases ms with
      | nil => simp [renderObj, memberBytes]
      | cons k ks =>
          simp only [renderObj, byteLen_append, byteLen_cons, List.map_cons, List.sum_cons,
            memberBytes, hc] at ih ⊢
          omega

/-- The bytes of a member, from the bytes of its name and of its value. -/
theorem memberBytes_eq (key : String) (v : Json) :
    memberBytes (key, v) = byteLen (renderStr key) + byteLen v.render + 2 := by
  have hc : (':' : Char).utf8Size = 1 := by decide
  simp only [memberBytes, renderMember, byteLen_append, byteLen_cons, hc]
  omega

end Json

end Vaiexia.Lib
