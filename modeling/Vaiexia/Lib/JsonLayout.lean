import Vaiexia.Lib.JsonParse

/-!
# JSON documents with blanks

A layout says which blanks a writer puts into a document: before an element and before a closing
bracket, by the nesting there, and after the colon of a member.  `Layout.pretty` is the one of
`serde_json::to_string_pretty`.  The reader skips all of them (`Layout.parse_render`).
-/

namespace Vaiexia.Lib

namespace Json

/-- The blanks of a writer. -/
structure Layout where
  lead : Nat → List Char
  gap : List Char
  isBlank_lead : ∀ n, ∀ c ∈ lead n, isBlank c = true
  isBlank_gap : ∀ c ∈ gap, isBlank c = true

namespace Layout

/-- The pretty writer: every element on a line of its own, two blanks for each level. -/
def pretty : Layout where
  lead := fun n ↦ '\n' :: List.replicate (2 * n) ' '
  gap := [' ']
  isBlank_lead := by
    intro n c hc
    rcases List.mem_cons.mp hc with rfl | hc
    · rfl
    · rw [List.eq_of_mem_replicate hc]
      rfl
  isBlank_gap := by
    intro c hc
    rw [List.mem_singleton.mp hc]
    rfl

variable (L : Layout)

mutual

/-- A document whose brackets are `n` levels deep. -/
def render (n : Nat) : Json → List Char
  | arr xs => '[' :: renderArr (n + 1) xs ++ (if xs.isEmpty then [] else L.lead n) ++ [']']
  | obj ms => '{' :: renderObj (n + 1) ms ++ (if ms.isEmpty then [] else L.lead n) ++ ['}']
  | v => v.render

/-- The elements of an array. -/
def renderArr (n : Nat) : List Json → List Char
  | [] => []
  | [x] => L.lead n ++ render n x
  | x :: xs => L.lead n ++ render n x ++ ',' :: renderArr n xs

/-- The members of an object. -/
def renderObj (n : Nat) : List (String × Json) → List Char
  | [] => []
  | [m] => L.lead n ++ renderMember n m
  | m :: ms => L.lead n ++ renderMember n m ++ ',' :: renderObj n ms

/-- One member of an object. -/
def renderMember (n : Nat) : String × Json → List Char
  | (key, v) => renderStr key ++ ':' :: L.gap ++ render n v

end

variable {L : Layout}

/-! ## Blanks -/

/-- Blanks before a text are skipped. -/
theorem skipWs_append {ws : List Char} (hws : ∀ c ∈ ws, isBlank c = true) (cs : List Char) :
    skipWs (ws ++ cs) = skipWs cs := List.dropWhile_append_of_pos hws

theorem parseValue_append {ws : List Char} (hws : ∀ c ∈ ws, isBlank c = true) (n d : Nat)
    (cs : List Char) : parseValue n d (ws ++ cs) = parseValue n d cs := by
  cases d <;> simp only [parseValue, skipWs_append hws]

/-- A blank does not continue a number. -/
theorem stops_append {ws cs : List Char} (hws : ∀ c ∈ ws, isBlank c = true) (hcs : Stops cs) :
    Stops (ws ++ cs) := by
  cases ws with
  | nil => exact hcs
  | cons w ws =>
      intro c hc
      obtain rfl : w = c := by simpa using hc
      have hblank := hws w List.mem_cons_self
      simp only [isBlank, Bool.or_eq_true, decide_eq_true_eq] at hblank
      rcases hblank with ((rfl | rfl) | rfl) | rfl <;> decide

/-! ## Texts -/

/-- The text of a value begins with a character that is neither blank nor a closing bracket. -/
theorem render_head {d : Nat} {v : Json} (n : Nat) (hv : ReadableIn d v) :
    ∃ c cs, L.render n v = c :: cs ∧ isBlank c = false ∧ c ≠ ']' := by
  cases v with
  | arr xs => exact ⟨'[', _, by rw [render, List.cons_append, List.cons_append], rfl, by decide⟩
  | obj ms => exact ⟨'{', _, by rw [render, List.cons_append, List.cons_append], rfl, by decide⟩
  | null | bool b | uint m | number text | str s => exact Json.render_head hv

theorem length_le_renderArr {d : Nat} (n : Nat) {xs : List Json} (h : ∀ x ∈ xs, ReadableIn d x) :
    xs.length ≤ (L.renderArr n xs).length := by
  induction xs with
  | nil => exact Nat.zero_le _
  | cons x xs ih =>
      obtain ⟨c, cs, hc, -, -⟩ := render_head (L := L) n (h x List.mem_cons_self)
      have hxs := ih fun y hy ↦ h y (List.mem_cons_of_mem x hy)
      cases xs with
      | nil =>
          simp only [renderArr, hc, List.length_append, List.length_cons, List.length_nil]
          omega
      | cons y ys =>
          simp only [renderArr, hc, List.length_append, List.length_cons] at hxs ⊢
          omega

theorem length_le_renderObj (n : Nat) (ms : List (String × Json)) :
    ms.length ≤ (L.renderObj n ms).length := by
  induction ms with
  | nil => exact Nat.zero_le _
  | cons m ms ih =>
      obtain ⟨key, v⟩ := m
      cases ms with
      | nil =>
          simp only [renderObj, renderMember, List.length_append, List.length_cons,
            List.length_nil]
          omega
      | cons k ks =>
          simp only [renderObj, renderMember, List.length_append, List.length_cons] at ih ⊢
          omega

/-! ## Reading back -/

section Read

variable {p : List Char → Option (Json × List Char)} {d N m : Nat}

/-- The elements of an array read back if each of them does. -/
theorem parseElems_render
    (hp : ∀ ws v r, (∀ c ∈ ws, isBlank c = true) → ReadableIn d v → (L.render m v).length < N →
      Stops r → p (ws ++ (L.render m v ++ r)) = some (v, r))
    {close : List Char} (hclose : ∀ c ∈ close, isBlank c = true) :
    ∀ (xs : List Json) (n : Nat) (r : List Char), xs ≠ [] → xs.length ≤ n →
      (∀ x ∈ xs, ReadableIn d x) → (L.renderArr m xs).length < N →
      parseElems p n (L.renderArr m xs ++ (close ++ ']' :: r)) = some (xs, r) := by
  intro xs
  induction xs with
  | nil =>
      intro n r hne
      exact absurd rfl hne
  | cons x xs ih =>
      intro n r _ hn hxs hlen
      obtain ⟨n, rfl⟩ : ∃ k, n = k + 1 := ⟨n - 1, by simp at hn; omega⟩
      have hx : ReadableIn d x := hxs x List.mem_cons_self
      cases xs with
      | nil =>
          simp only [renderArr, List.length_append] at hlen
          have hpx := hp (L.lead m) x (close ++ ']' :: r) (L.isBlank_lead m) hx (by omega)
            (stops_append hclose stops_of_head)
          simp only [renderArr, List.append_assoc, parseElems, hpx, Option.bind_eq_bind,
            Option.bind_some, skipWs_append hclose,
            skipWs_of_not_blank (by decide : isBlank ']' = false)]
      | cons y ys =>
          simp only [renderArr, List.length_append, List.length_cons] at hlen
          have hpx := hp (L.lead m) x (',' :: (L.renderArr m (y :: ys) ++ (close ++ ']' :: r)))
            (L.isBlank_lead m) hx (by omega) stops_of_head
          have hrest := ih n r (List.cons_ne_nil y ys) (by simpa using hn)
            (fun z hz ↦ hxs z (List.mem_cons_of_mem x hz)) (by omega)
          simp only [renderArr, List.append_assoc, List.cons_append, parseElems, hpx,
            Option.bind_eq_bind, Option.bind_some,
            skipWs_of_not_blank (by decide : isBlank ',' = false), hrest]

/-- A member of an object reads back if its value does. -/
theorem parseMember_render
    (hp : ∀ ws v r, (∀ c ∈ ws, isBlank c = true) → ReadableIn d v → (L.render m v).length < N →
      Stops r → p (ws ++ (L.render m v ++ r)) = some (v, r))
    {ws : List Char} (hws : ∀ c ∈ ws, isBlank c = true) {member : String × Json} {r : List Char}
    (hv : ReadableIn d member.2) (hlen : (L.renderMember m member).length < N) (hr : Stops r) :
    parseMember p N (ws ++ (L.renderMember m member ++ r)) = some (member, r) := by
  obtain ⟨key, v⟩ := member
  simp only [renderMember, List.length_append, List.length_cons] at hlen
  obtain ⟨rest, happ, hkey⟩ := parseStr_renderStr (s := key) (n := N) (by omega)
    (':' :: (L.gap ++ (L.render m v ++ r)))
  have hpv := hp L.gap v r L.isBlank_gap hv (by omega) hr
  simp only [renderMember, List.append_assoc, List.cons_append, happ, parseMember,
    skipWs_append hws, skipWs_of_not_blank (by decide : isBlank '"' = false), hkey,
    Option.bind_eq_bind, Option.bind_some,
    skipWs_of_not_blank (by decide : isBlank ':' = false), hpv, String.ofList_toList]

/-- The members of an object read back if each of their values does. -/
theorem parseMembers_render
    (hp : ∀ ws v r, (∀ c ∈ ws, isBlank c = true) → ReadableIn d v → (L.render m v).length < N →
      Stops r → p (ws ++ (L.render m v ++ r)) = some (v, r))
    {close : List Char} (hclose : ∀ c ∈ close, isBlank c = true) :
    ∀ (ms : List (String × Json)) (n : Nat) (r : List Char), ms ≠ [] → ms.length ≤ n →
      (∀ m ∈ ms, ReadableIn d m.2) → (L.renderObj m ms).length < N →
      parseMembers p N n (L.renderObj m ms ++ (close ++ '}' :: r)) = some (ms, r) := by
  intro ms
  induction ms with
  | nil =>
      intro n r hne
      exact absurd rfl hne
  | cons k ms ih =>
      intro n r _ hn hms hlen
      obtain ⟨n, rfl⟩ : ∃ j, n = j + 1 := ⟨n - 1, by simp at hn; omega⟩
      have hk : ReadableIn d k.2 := hms k List.mem_cons_self
      cases ms with
      | nil =>
          simp only [renderObj, List.length_append] at hlen
          have hpk := parseMember_render hp (L.isBlank_lead m) hk (by omega)
            (stops_append hclose (stops_of_head (c := '}') (r := r)))
          simp only [renderObj, List.append_assoc, parseMembers, hpk, Option.bind_eq_bind,
            Option.bind_some, skipWs_append hclose,
            skipWs_of_not_blank (by decide : isBlank '}' = false)]
      | cons k' ks =>
          simp only [renderObj, List.length_append, List.length_cons] at hlen
          have hpk := parseMember_render hp (L.isBlank_lead m) hk (by omega)
            (stops_of_head (c := ',') (r := L.renderObj m (k' :: ks) ++ (close ++ '}' :: r)))
          have hrest := ih n r (List.cons_ne_nil k' ks) (by simpa using hn)
            (fun z hz ↦ hms z (List.mem_cons_of_mem k hz)) (by omega)
          simp only [renderObj, List.append_assoc, List.cons_append, parseMembers, hpk,
            Option.bind_eq_bind, Option.bind_some,
            skipWs_of_not_blank (by decide : isBlank ',' = false), hrest]

end Read

/-- What follows the blanks before the first element is the same text. -/
theorem parseElems_append {p : List Char → Option (Json × List Char)} {ws : List Char}
    (hp : ∀ cs, p (ws ++ cs) = p cs) (n : Nat) (cs : List Char) :
    parseElems p n (ws ++ cs) = parseElems p n cs := by
  cases n with
  | zero => rfl
  | succ n => simp only [parseElems, hp]

theorem parseMembers_append {p : List Char → Option (Json × List Char)} {ws : List Char}
    (hws : ∀ c ∈ ws, isBlank c = true) (N n : Nat) (cs : List Char) :
    parseMembers p N n (ws ++ cs) = parseMembers p N n cs := by
  cases n with
  | zero => rfl
  | succ n => simp only [parseMembers, parseMember, skipWs_append hws]

/-- The elements begin with blanks and the first one. -/
theorem renderArr_cons (n : Nat) (x : Json) (xs : List Json) (r : List Char) :
    ∃ t, L.renderArr n (x :: xs) ++ r = L.lead n ++ (L.render n x ++ t) := by
  cases xs with
  | nil => exact ⟨r, by rw [renderArr, List.append_assoc]⟩
  | cons y ys =>
      exact ⟨',' :: L.renderArr n (y :: ys) ++ r, by
        simp only [renderArr, List.append_assoc, List.cons_append]⟩

/-- The members begin with blanks and a quote. -/
theorem renderObj_cons (n : Nat) (m : String × Json) (ms : List (String × Json)) (r : List Char) :
    ∃ t, L.renderObj n (m :: ms) ++ r = L.lead n ++ '"' :: t := by
  obtain ⟨key, v⟩ := m
  have hm : ∃ t, L.renderMember n (key, v) = '"' :: t := ⟨_, by
    rw [renderMember, renderStr, List.cons_append, List.cons_append, List.cons_append]⟩
  obtain ⟨t, ht⟩ := hm
  cases ms with
  | nil => exact ⟨t ++ r, by rw [renderObj, ht, List.append_assoc, List.cons_append]⟩
  | cons k ks =>
      exact ⟨t ++ ',' :: L.renderObj n (k :: ks) ++ r, by
        simp only [renderObj, ht, List.append_assoc, List.cons_append]⟩

/-- The text of a value that is neither an array nor an object is the compact one. -/
theorem render_atom (n : Nat) {v : Json} (harr : ∀ xs, v ≠ arr xs) (hobj : ∀ ms, v ≠ obj ms) :
    L.render n v = v.render := by
  cases v with
  | arr xs => exact absurd rfl (harr xs)
  | obj ms => exact absurd rfl (hobj ms)
  | null | bool b | uint m | number text | str s => rfl

/-- **Values read back**, one nesting level at a time, with any blanks before them. -/
theorem parseValue_render (n : Nat) : ∀ (d m : Nat) (ws : List Char) (v : Json) (r : List Char),
    (∀ c ∈ ws, isBlank c = true) → ReadableIn d v → (L.render m v).length < n → Stops r →
      parseValue n d (ws ++ (L.render m v ++ r)) = some (v, r) := by
  intro d
  induction d with
  | zero =>
      intro m ws v r hws hv hlen hr
      have harr : ∀ xs, v ≠ arr xs := by
        rintro xs rfl
        exact hv
      have hobj : ∀ ms, v ≠ obj ms := by
        rintro ms rfl
        exact hv
      rw [render_atom m harr hobj] at hlen
      rw [parseValue_append hws, render_atom m harr hobj, parseValue, skipWs_render hv]
      exact parseAtom_render hv hlen hr harr hobj
  | succ d ih =>
      intro m ws v r hws hv hlen hr
      rw [parseValue_append hws]
      by_cases harr : ∃ xs, v = arr xs
      · obtain ⟨xs, rfl⟩ := harr
        simp only [render, List.length_append, List.length_cons] at hlen
        cases xs with
        | nil => simp [render, renderArr, parseValue, isBlank]
        | cons x xs =>
            have hread := parseElems_render (L := L) (m := m + 1)
              (fun ws v r hws ↦ ih (m + 1) ws v r hws) (L.isBlank_lead m) (x :: xs) n r
              (List.cons_ne_nil x xs) (by
                have hle := length_le_renderArr (L := L) (m + 1) hv
                omega) hv (by omega)
            obtain ⟨t, ht⟩ := renderArr_cons (L := L) (m + 1) x xs (L.lead m ++ ']' :: r)
            obtain ⟨c, cs, hc, hblank, hclose⟩ :=
              render_head (L := L) (m + 1) (hv x List.mem_cons_self)
            rw [ht, parseElems_append (parseValue_append (L.isBlank_lead (m + 1)) n d)] at hread
            simp only [render, List.isEmpty_cons, Bool.false_eq_true, if_false, List.cons_append,
              List.append_assoc, List.nil_append, parseValue,
              skipWs_of_not_blank (by decide : isBlank '[' = false)]
            rw [ht, skipWs_append (L.isBlank_lead (m + 1))]
            rw [hc, List.cons_append] at hread ⊢
            rw [skipWs_of_not_blank hblank]
            split
            · rename_i heq
              exact absurd (List.cons.inj heq).1 hclose
            · rw [hread]
              rfl
      by_cases hobj : ∃ ms, v = obj ms
      · obtain ⟨ms, rfl⟩ := hobj
        simp only [render, List.length_append, List.length_cons] at hlen
        cases ms with
        | nil => simp [render, renderObj, parseValue, isBlank]
        | cons k ms =>
            have hread := parseMembers_render (L := L) (m := m + 1)
              (fun ws v r hws ↦ ih (m + 1) ws v r hws) (L.isBlank_lead m) (k :: ms) n r
              (List.cons_ne_nil k ms) (by
                have hle := length_le_renderObj (L := L) (m + 1) (k :: ms)
                omega) hv (by omega)
            obtain ⟨t, ht⟩ := renderObj_cons (L := L) (m + 1) k ms (L.lead m ++ '}' :: r)
            rw [ht, parseMembers_append (L.isBlank_lead (m + 1))] at hread
            simp only [render, List.isEmpty_cons, Bool.false_eq_true, if_false, List.cons_append,
              List.append_assoc, List.nil_append, parseValue,
              skipWs_of_not_blank (by decide : isBlank '{' = false)]
            rw [ht, skipWs_append (L.isBlank_lead (m + 1)),
              skipWs_of_not_blank (by decide : isBlank '"' = false)]
            simp [hread]
      · have harr' : ∀ xs, v ≠ arr xs := fun xs heq ↦ harr ⟨xs, heq⟩
        have hobj' : ∀ ms, v ≠ obj ms := fun ms heq ↦ hobj ⟨ms, heq⟩
        rw [render_atom m harr' hobj'] at hlen ⊢
        rw [parseValue_succ_atom hv harr' hobj']
        exact parseAtom_render hv hlen hr harr' hobj'

/-- **The reader skips the blanks of every layout.** -/
theorem parse_render (L : Layout) {v : Json} (hv : v.Readable) : parse (L.render 0 v) = some v := by
  have hstop : Stops [] := by
    intro c hc
    cases hc
  have hread := parseValue_render ((L.render 0 v).length + 1) 127 0 [] v [] (by simp) hv
    (Nat.lt_succ_self _) hstop
  rw [List.nil_append, List.append_nil] at hread
  simp [parse, hread, skipWs]

end Layout

end Json

end Vaiexia.Lib
