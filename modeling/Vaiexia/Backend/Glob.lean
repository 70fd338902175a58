import Vaiexia.Lib.Loop
import Vaiexia.Lib.Wildcard

/-!
# Unit name globs

`glob_matches` of `crates/vaiexia-server/src/backend/systemd/manager.rs`: a scan with one point to
come back to, the last star it recorded.

The branch that compares two characters comes before the branch for a star, so a star of the
pattern whose turn comes at a star of the text is taken as that character and is never recorded.
`StarSame` is the notion of matching with this reading of a star, and the scan decides it.
-/

namespace Vaiexia.Backend

open Vaiexia.Lib

/-! ## What a pattern means -/

/-- The character sequences that may replace `c`, whatever follows them. -/
def Replaces (c : Char) (u : List Char) (_rest : List Char) : Prop :=
  c = '*' ∨ (c = '?' ∧ ∃ a, u = [a]) ∨ (c ≠ '*' ∧ c ≠ '?' ∧ u = [c])

/-- `text` is `pattern` with every star replaced by a sequence of characters and every question
mark by one character. -/
def Matches (pattern text : List Char) : Prop := Expands Replaces pattern text

/-- The replacements for which a star that stands before a star of the text is that character. -/
def ReplacesSame (c : Char) (u rest : List Char) : Prop :=
  Replaces c u rest ∧ (c = '*' → (u ++ rest).head? = some '*' → u = ['*'])

/-- `text` is `pattern` with its wildcards replaced, where a star whose turn comes at a star of
the text is replaced by that star only. -/
def StarSame (pattern text : List Char) : Prop := Expands ReplacesSame pattern text

/-! ## The scan -/

/-- The variables of `glob_matches`. -/
structure GlobState where
  p : Nat
  t : Nat
  star : Option Nat
  mark : Nat
deriving DecidableEq, Repr

/-- `pat[p] == '?' || pat[p] == txt[t]` guarded by `p < pat.len()`; `none` when an index is out of
bounds. -/
def sameHere (pat txt : List Char) (s : GlobState) : Option Bool :=
  if s.p < pat.length then do
    let c ← pat[s.p]?
    if c = '?' then return true
    let d ← txt[s.t]?
    return c == d
  else some false

/-- `pat[p] == '*'` guarded by `p < pat.len()`. -/
def starHere (pat : List Char) (s : GlobState) : Option Bool :=
  if s.p < pat.length then do
    let c ← pat[s.p]?
    return c == '*'
  else some false

/-- `&xs[i..]`, which panics when `i` is past the end. -/
def sliceFrom (xs : List Char) (i : Nat) : Option (List Char) :=
  if i ≤ xs.length then some (xs.drop i) else none

/-- The test of the loop and its body; when the text is used up, what comes after the loop. -/
def globBody (pat txt : List Char) (s : GlobState) : Option (Next GlobState Bool) :=
  if s.t < txt.length then do
    if ← sameHere pat txt s then
      return .go { s with p := s.p + 1, t := s.t + 1 }
    else if ← starHere pat s then
      return .go { s with star := some (s.p + 1), mark := s.t, p := s.p + 1 }
    else
      match s.star with
      | some afterStar =>
          return .go { s with p := afterStar, mark := s.mark + 1, t := s.mark + 1 }
      | none => return .stop false
  else do
    let rest ← sliceFrom pat s.p
    return .stop (rest.all (· == '*'))

def GlobState.init : GlobState where
  p := 0
  t := 0
  star := none
  mark := 0

/-- The loop of `glob_matches`, at most so many rounds of it. -/
def globLoop (rounds : Nat) (pat txt : List Char) : Option (Next GlobState Bool) :=
  Loop.run (globBody pat txt) rounds .init

/-- The rounds after which the loop has ended. -/
def globRounds (pat txt : List Char) : Nat := (pat.length + 1) * (txt.length + 1)

/-- `glob_matches`. -/
def globMatches (pattern text : String) : Bool :=
  globLoop (globRounds pattern.toList text.toList) pattern.toList text.toList == some (.stop true)

/-! ## One round -/

theorem getElem?_of_drop {xs rest : List Char} {i : Nat} {c : Char}
    (h : xs.drop i = c :: rest) : xs[i]? = some c := by
  rw [← List.head?_drop, h, List.head?_cons]

theorem lt_length_of_drop {xs rest : List Char} {i : Nat} {c : Char}
    (h : xs.drop i = c :: rest) : i < xs.length :=
  (List.getElem?_eq_some_iff.mp (getElem?_of_drop h)).1

/-- What is left after the head that was read. -/
theorem drop_succ_of_drop {xs rest : List Char} {i : Nat} {c : Char}
    (h : xs.drop i = c :: rest) : xs.drop (i + 1) = rest := by
  rw [← List.tail_drop, h, List.tail_cons]

theorem sameHere_of_drop {pat txt ps ts : List Char} {s : GlobState} {c d : Char}
    (hpat : pat.drop s.p = c :: ps) (htxt : txt.drop s.t = d :: ts) :
    sameHere pat txt s = some (decide (c = '?' ∨ c = d)) := by
  rw [sameHere, if_pos (lt_length_of_drop hpat), getElem?_of_drop hpat, getElem?_of_drop htxt]
  by_cases hq : c = '?'
  · simp [hq]
  · simp [hq]
    rfl

theorem starHere_of_drop {pat ps : List Char} {s : GlobState} {c : Char}
    (hpat : pat.drop s.p = c :: ps) : starHere pat s = some (decide (c = '*')) := by
  rw [starHere, if_pos (lt_length_of_drop hpat), getElem?_of_drop hpat]
  rfl

/-- No branch that advances is taken at the character `d` of the text. -/
def Stuck (rest : List Char) (d : Char) : Prop :=
  ∀ c ps, rest = c :: ps → c ≠ '?' ∧ c ≠ d ∧ c ≠ '*'

/-- What one round can do. -/
inductive GlobRound (pat txt : List Char) (s : GlobState) : Next GlobState Bool → Prop
  | finish (htxt : txt.drop s.t = []) :
      GlobRound pat txt s (.stop ((pat.drop s.p).all (· == '*')))
  | same {c d : Char} {ps ts : List Char} (hpat : pat.drop s.p = c :: ps)
      (htxt : txt.drop s.t = d :: ts) (hsame : c = '?' ∨ c = d) :
      GlobRound pat txt s (.go { s with p := s.p + 1, t := s.t + 1 })
  | star {d : Char} {ps ts : List Char} (hpat : pat.drop s.p = '*' :: ps)
      (htxt : txt.drop s.t = d :: ts) (hd : d ≠ '*') :
      GlobRound pat txt s (.go { s with star := some (s.p + 1), mark := s.t, p := s.p + 1 })
  | back {d : Char} {ts : List Char} {afterStar : Nat} (htxt : txt.drop s.t = d :: ts)
      (hstuck : Stuck (pat.drop s.p) d) (hstar : s.star = some afterStar) :
      GlobRound pat txt s (.go { s with p := afterStar, mark := s.mark + 1, t := s.mark + 1 })
  | fail {d : Char} {ts : List Char} (htxt : txt.drop s.t = d :: ts)
      (hstuck : Stuck (pat.drop s.p) d) (hstar : s.star = none) :
      GlobRound pat txt s (.stop false)

/-- When neither branch advances, the last star takes one more character. -/
theorem globRound_of_stuck {pat txt ts : List Char} {s : GlobState} {d : Char}
    (htxt : txt.drop s.t = d :: ts) (hsame : sameHere pat txt s = some false)
    (hstar : starHere pat s = some false) (hstuck : Stuck (pat.drop s.p) d) :
    ∃ next, globBody pat txt s = some next ∧ GlobRound pat txt s next := by
  rw [globBody, if_pos (lt_length_of_drop htxt), hsame, hstar]
  cases hs : s.star with
  | none => exact ⟨_, rfl, .fail htxt hstuck hs⟩
  | some afterStar =>
      refine ⟨_, rfl, ?_⟩
      rw [← hs]
      exact .back htxt hstuck hs

/-- Within the pattern a round does not panic. -/
theorem globBody_spec {pat : List Char} (txt : List Char) {s : GlobState}
    (hp : s.p ≤ pat.length) :
    ∃ next, globBody pat txt s = some next ∧ GlobRound pat txt s next := by
  cases htxt : txt.drop s.t with
  | nil =>
      have hend : ¬ s.t < txt.length := Nat.not_lt.mpr (List.drop_eq_nil_iff.mp htxt)
      rw [globBody, if_neg hend, sliceFrom, if_pos hp]
      exact ⟨_, rfl, .finish htxt⟩
  | cons d ts =>
      cases hpat : pat.drop s.p with
      | nil =>
          have hend : ¬ s.p < pat.length := Nat.not_lt.mpr (List.drop_eq_nil_iff.mp hpat)
          refine globRound_of_stuck htxt (if_neg hend) (if_neg hend) ?_
          rw [hpat]
          exact fun c ps h ↦ nomatch h
      | cons c ps =>
          have hsameHere := sameHere_of_drop hpat htxt
          have hstarHere := starHere_of_drop hpat
          by_cases hsame : c = '?' ∨ c = d
          · rw [globBody, if_pos (lt_length_of_drop htxt), hsameHere, decide_eq_true hsame]
            exact ⟨_, rfl, .same hpat htxt hsame⟩
          · rw [decide_eq_false hsame] at hsameHere
            by_cases hstar : c = '*'
            · rw [globBody, if_pos (lt_length_of_drop htxt), hsameHere, hstarHere,
                decide_eq_true hstar]
              subst hstar
              exact ⟨_, rfl, .star hpat htxt fun hd ↦ hsame (.inr hd.symm)⟩
            · rw [decide_eq_false hstar] at hstarHere
              refine globRound_of_stuck htxt hsameHere hstarHere ?_
              rw [hpat]
              rintro _ _ ⟨⟩
              exact ⟨fun hq ↦ hsame (.inl hq), fun hd ↦ hsame (.inr hd), hstar⟩

/-! ## Termination -/

/-- Every index of the state is within the list it points into. -/
structure GlobState.InBounds (pat txt : List Char) (s : GlobState) : Prop where
  p_le : s.p ≤ pat.length
  t_le : s.t ≤ txt.length
  mark_le : s.mark ≤ s.t
  star_le : ∀ afterStar, s.star = some afterStar → afterStar ≤ pat.length

theorem GlobState.inBounds_init (pat txt : List Char) : InBounds pat txt .init where
  p_le := Nat.zero_le _
  t_le := Nat.zero_le _
  mark_le := Nat.le_refl _
  star_le _ h := nomatch h

/-- A round that goes on stays within bounds, and it either advances in the pattern, with the mark
no smaller, or moves the mark. -/
theorem GlobRound.inBounds {pat txt : List Char} {s s' : GlobState}
    (hround : GlobRound pat txt s (.go s')) (hs : s.InBounds pat txt) :
    s'.InBounds pat txt ∧ s.mark ≤ s'.mark ∧ (s.p < s'.p ∨ s.mark < s'.mark) := by
  generalize hnext : Next.go s' = next at hround
  cases hround with
  | finish => cases hnext
  | fail => cases hnext
  | same hpat htxt _ =>
      cases hnext
      refine ⟨⟨lt_length_of_drop hpat, lt_length_of_drop htxt, Nat.le_succ_of_le hs.mark_le,
        hs.star_le⟩, Nat.le_refl _, .inl (Nat.lt_succ_self _)⟩
  | star hpat _ _ =>
      cases hnext
      refine ⟨⟨lt_length_of_drop hpat, hs.t_le, Nat.le_refl _, ?_⟩, hs.mark_le,
        .inl (Nat.lt_succ_self _)⟩
      rintro _ ⟨⟩
      exact lt_length_of_drop hpat
  | back htxt _ hstar =>
      cases hnext
      have hmark : s.mark < txt.length := Nat.lt_of_le_of_lt hs.mark_le (lt_length_of_drop htxt)
      exact ⟨⟨hs.star_le _ hstar, hmark, Nat.le_refl _, hs.star_le⟩, Nat.le_succ _,
        .inr (Nat.lt_succ_self _)⟩

/-- The rounds that the mark and the position in the pattern leave. -/
def roundsLeft (pat txt : List Char) (s : GlobState) : Nat :=
  (pat.length + 1) * (txt.length - s.mark) + (pat.length - s.p)

/-- A round leaves fewer rounds: what the position in the pattern loses when the scan comes back is
less than what the mark gains. -/
theorem roundsLeft_lt {pat txt : List Char} {s s' : GlobState} (hs' : s'.InBounds pat txt)
    (hmark : s.mark ≤ s'.mark) (hmove : s.p < s'.p ∨ s.mark < s'.mark) :
    roundsLeft pat txt s' < roundsLeft pat txt s := by
  have hp := hs'.p_le
  have hm := Nat.le_trans hs'.mark_le hs'.t_le
  rcases Nat.eq_or_lt_of_le hmark with heq | hlt
  · rw [roundsLeft, roundsLeft, heq]
    omega
  · have hstep : txt.length - s'.mark + 1 ≤ txt.length - s.mark := by omega
    have hmul := Nat.mul_le_mul_left (pat.length + 1) hstep
    rw [Nat.mul_add, Nat.mul_one] at hmul
    rw [roundsLeft, roundsLeft]
    omega

/-- A round within bounds stops, or goes on within bounds with fewer rounds left. -/
theorem globBody_progress {pat txt : List Char} {s : GlobState} (hs : s.InBounds pat txt) :
    (∃ a, globBody pat txt s = some (.stop a)) ∨
      ∃ s', globBody pat txt s = some (.go s') ∧ s'.InBounds pat txt ∧
        roundsLeft pat txt s' < roundsLeft pat txt s := by
  obtain ⟨next, hbody, hround⟩ := globBody_spec txt hs.p_le
  cases next with
  | stop a => exact .inl ⟨a, hbody⟩
  | go s' =>
      obtain ⟨hs', hmark, hmove⟩ := hround.inBounds hs
      exact .inr ⟨s', hbody, hs', roundsLeft_lt hs' hmark hmove⟩

theorem roundsLeft_init (pat txt : List Char) :
    roundsLeft pat txt .init + 1 = globRounds pat txt := by
  simp only [roundsLeft, GlobState.init, globRounds, Nat.sub_zero]
  rw [Nat.mul_succ, Nat.add_assoc]

theorem globLoop_stops (pat txt : List Char) :
    ∃ answer, globLoop (globRounds pat txt) pat txt = some (.stop answer) := by
  rw [← roundsLeft_init]
  exact Loop.run_stops (fun _ ↦ globBody_progress) (GlobState.inBounds_init pat txt)

/-- **Termination of `glob_matches`.**  For a pattern of `m` and a text of `n` characters the loop
has ended after `(m + 1) * (n + 1)` rounds, the failing test of the loop counted as one, and no
index is out of bounds in any round nor in the slice after it. -/
theorem globLoop_terminates (pattern text : String) :
    (∃ answer, globLoop ((pattern.toList.length + 1) * (text.toList.length + 1)) pattern.toList
        text.toList = some (.stop answer)) ∧
      ∀ rounds, globLoop rounds pattern.toList text.toList ≠ none := by
  obtain ⟨answer, hstop⟩ := globLoop_stops pattern.toList text.toList
  exact ⟨⟨answer, hstop⟩, fun rounds ↦ Loop.run_ne_none hstop rounds⟩

/-! ## Correctness -/

section Same

variable {c d : Char} {p t v : List Char}

theorem starSame_of_cons (h : StarSame (c :: p) t) : ∃ v, v <:+ t ∧ StarSame p v := by
  obtain ⟨u, v, rfl, -, hp⟩ := Expands.cons_iff.mp h
  exact ⟨v, List.suffix_append u v, hp⟩

/-- A character that is the next one, or a question mark, takes the next character only. -/
theorem starSame_cons_cons (h : c = '?' ∨ c = d) : StarSame (c :: p) (d :: t) ↔ StarSame p t := by
  rw [StarSame, Expands.cons_iff]
  constructor
  · rintro ⟨u, v, heq, ⟨hc, hstar⟩, hp⟩
    obtain ⟨a, rfl⟩ : ∃ a, u = [a] := by
      rcases hc with rfl | ⟨-, hu⟩ | ⟨-, -, rfl⟩
      · obtain rfl : '*' = d := h.resolve_left (by decide)
        exact ⟨'*', hstar rfl (by rw [← heq]; rfl)⟩
      · exact hu
      · exact ⟨c, rfl⟩
    cases heq
    exact hp
  · intro hp
    refine ⟨[d], t, rfl, ⟨?_, ?_⟩, hp⟩
    · by_cases hstar : c = '*'
      · exact .inl hstar
      · rcases h with hq | rfl
        · exact .inr (.inl ⟨hq, d, rfl⟩)
        · by_cases hq : c = '?'
          · exact .inr (.inl ⟨hq, c, rfl⟩)
          · exact .inr (.inr ⟨hstar, hq, rfl⟩)
    · rintro - hd
      cases hd
      rfl

/-- A star takes any sequence that does not start with a star. -/
theorem starSame_star (hd : d ≠ '*') :
    StarSame ('*' :: p) (d :: t) ↔ ∃ v, v <:+ d :: t ∧ StarSame p v := by
  constructor
  · exact starSame_of_cons
  · rintro ⟨v, ⟨u, huv⟩, hp⟩
    refine Expands.cons_iff.mpr ⟨u, v, huv.symm, ⟨.inl rfl, fun _ hhead ↦ ?_⟩, hp⟩
    rw [huv] at hhead
    exact absurd (Option.some.inj hhead) hd

/-- Where the scan is stuck there is no match. -/
theorem not_starSame_of_stuck (h : Stuck p d) : ¬ StarSame p (d :: t) := by
  intro hp
  cases p with
  | nil => exact List.cons_ne_nil _ _ (Expands.nil_iff.mp hp)
  | cons c p =>
      obtain ⟨hq, hne, hstar⟩ := h c p rfl
      obtain ⟨u, v, heq, ⟨hc, -⟩, -⟩ := Expands.cons_iff.mp hp
      rcases hc with hc | ⟨hc, -⟩ | ⟨-, -, rfl⟩
      · exact hstar hc
      · exact hq hc
      · exact hne (List.cons.inj heq).1.symm

/-- What is left of the pattern when the text is used up. -/
theorem starSame_nil (p : List Char) : StarSame p [] ↔ p.all (· == '*') = true := by
  induction p with
  | nil => simp [StarSame]
  | cons c p ih =>
      rw [List.all_cons, Bool.and_eq_true, ← ih, beq_iff_eq, StarSame, Expands.cons_iff]
      constructor
      · rintro ⟨u, v, heq, ⟨hc, -⟩, hp⟩
        obtain ⟨rfl, rfl⟩ := List.append_eq_nil_iff.mp heq.symm
        rcases hc with hc | ⟨-, a, ha⟩ | ⟨-, -, ha⟩
        · exact ⟨hc, hp⟩
        · cases ha
        · cases ha
      · rintro ⟨hc, hp⟩
        exact ⟨[], [], rfl, ⟨.inl hc, fun _ h ↦ nomatch h⟩, hp⟩

end Same

/-- What the scan has found out: every match that lets the last star take more goes on behind the
place in the text, and there is a match of the whole exactly when there is one from here or one
that lets the last star take more. -/
structure Scanned (pat txt : List Char) (s : GlobState) : Prop where
  ahead : ∀ afterStar, s.star = some afterStar → ∀ w, w <:+ txt.drop s.mark →
    StarSame (pat.drop afterStar) w → ∃ v, v <:+ txt.drop s.t ∧ StarSame (pat.drop s.p) v
  same : StarSame pat txt ↔ StarSame (pat.drop s.p) (txt.drop s.t) ∨
    ∃ afterStar, s.star = some afterStar ∧
      ∃ w, w <:+ txt.drop (s.mark + 1) ∧ StarSame (pat.drop afterStar) w

theorem scanned_init (pat txt : List Char) : Scanned pat txt .init where
  ahead _ h := nomatch h
  same := by
    constructor
    · exact .inl
    · rintro (h | ⟨_, hstar, -⟩)
      · exact h
      · cases hstar

/-- A suffix is the whole list or a suffix of its tail. -/
theorem suffix_iff_eq_or_suffix_tail {w l : List Char} : w <:+ l ↔ w = l ∨ w <:+ l.tail := by
  cases l with
  | nil => simp
  | cons d l => exact List.suffix_cons_iff

/-- A match that lets the last star take more goes on behind the place in the text. -/
theorem Scanned.behind {pat txt : List Char} {s : GlobState} (hs : Scanned pat txt s)
    (h : ∃ afterStar, s.star = some afterStar ∧
      ∃ w, w <:+ txt.drop (s.mark + 1) ∧ StarSame (pat.drop afterStar) w) :
    ∃ v, v <:+ txt.drop s.t ∧ StarSame (pat.drop s.p) v := by
  obtain ⟨afterStar, hstar, w, hw, hmatch⟩ := h
  refine hs.ahead afterStar hstar w ?_ hmatch
  rw [← List.tail_drop] at hw
  exact hw.trans (List.tail_suffix _)

/-- Taking the same character in the pattern and in the text. -/
theorem Scanned.go_same {pat txt ps ts : List Char} {s : GlobState} {c d : Char}
    (hs : Scanned pat txt s) (hpat : pat.drop s.p = c :: ps) (htxt : txt.drop s.t = d :: ts)
    (hsame : c = '?' ∨ c = d) : Scanned pat txt { s with p := s.p + 1, t := s.t + 1 } := by
  constructor
  · intro afterStar hstar w hw hmatch
    obtain ⟨v, hv, hmatch⟩ := hs.ahead afterStar hstar w hw hmatch
    rw [htxt] at hv
    rw [hpat] at hmatch
    show ∃ v, v <:+ txt.drop (s.t + 1) ∧ StarSame (pat.drop (s.p + 1)) v
    rw [drop_succ_of_drop hpat, drop_succ_of_drop htxt]
    rcases List.suffix_cons_iff.mp hv with rfl | hv
    · exact ⟨ts, List.suffix_rfl, (starSame_cons_cons hsame).mp hmatch⟩
    · obtain ⟨u, hu, hmatch⟩ := starSame_of_cons hmatch
      exact ⟨u, hu.trans hv, hmatch⟩
  · rw [hs.same, hpat, htxt, starSame_cons_cons hsame]
    show _ ↔ StarSame (pat.drop (s.p + 1)) (txt.drop (s.t + 1)) ∨ _
    rw [drop_succ_of_drop hpat, drop_succ_of_drop htxt]

/-- Recording a star: whatever the star before it could still have taken, this one can. -/
theorem Scanned.go_star {pat txt ps ts : List Char} {s : GlobState} {d : Char}
    (hs : Scanned pat txt s) (hpat : pat.drop s.p = '*' :: ps) (htxt : txt.drop s.t = d :: ts)
    (hd : d ≠ '*') :
    Scanned pat txt { s with star := some (s.p + 1), mark := s.t, p := s.p + 1 } := by
  constructor
  · rintro _ ⟨⟩ w hw hmatch
    exact ⟨w, hw, hmatch⟩
  · have hhere : StarSame pat txt ↔ StarSame ('*' :: ps) (d :: ts) := by
      rw [hs.same, hpat, htxt]
      refine ⟨?_, .inl⟩
      rintro (h | h)
      · exact h
      · obtain ⟨v, hv, hmatch⟩ := hs.behind h
        rw [htxt] at hv
        rw [hpat] at hmatch
        obtain ⟨u, hu, hmatch⟩ := starSame_of_cons hmatch
        exact (starSame_star hd).mpr ⟨u, hu.trans hv, hmatch⟩
    rw [hhere, starSame_star hd]
    show _ ↔ StarSame (pat.drop (s.p + 1)) (txt.drop s.t) ∨ ∃ afterStar,
      some (s.p + 1) = some afterStar ∧
        ∃ w, w <:+ txt.drop (s.t + 1) ∧ StarSame (pat.drop afterStar) w
    rw [drop_succ_of_drop hpat, drop_succ_of_drop htxt, htxt]
    constructor
    · rintro ⟨v, hv, hmatch⟩
      rcases List.suffix_cons_iff.mp hv with rfl | hv
      · exact .inl hmatch
      · exact .inr ⟨_, rfl, v, hv, by rwa [drop_succ_of_drop hpat]⟩
    · rintro (hmatch | ⟨_, ⟨⟩, v, hv, hmatch⟩)
      · exact ⟨_, List.suffix_rfl, hmatch⟩
      · rw [drop_succ_of_drop hpat] at hmatch
        exact ⟨v, hv.trans (List.suffix_cons d ts), hmatch⟩

/-- Coming back to the last star, which takes one more character. -/
theorem Scanned.go_back {pat txt : List Char} {s : GlobState} {afterStar : Nat}
    (hs : Scanned pat txt s) (hnone : ¬ StarSame (pat.drop s.p) (txt.drop s.t))
    (hstar : s.star = some afterStar) :
    Scanned pat txt { s with p := afterStar, mark := s.mark + 1, t := s.mark + 1 } := by
  constructor
  · intro _ hstar' w hw hmatch
    cases hstar.symm.trans hstar'
    exact ⟨w, hw, hmatch⟩
  · rw [hs.same]
    show _ ↔ StarSame (pat.drop afterStar) (txt.drop (s.mark + 1)) ∨ ∃ afterStar',
      s.star = some afterStar' ∧
        ∃ w, w <:+ txt.drop (s.mark + 1 + 1) ∧ StarSame (pat.drop afterStar') w
    rw [hstar, ← List.tail_drop (i := s.mark + 1)]
    constructor
    · rintro (h | ⟨_, ⟨⟩, w, hw, hmatch⟩)
      · exact absurd h hnone
      · rcases suffix_iff_eq_or_suffix_tail.mp hw with rfl | hw
        · exact .inl hmatch
        · exact .inr ⟨_, rfl, w, hw, hmatch⟩
    · rintro (h | ⟨_, ⟨⟩, w, hw, hmatch⟩)
      · exact .inr ⟨_, rfl, _, List.suffix_rfl, h⟩
      · exact .inr ⟨_, rfl, w, hw.trans (List.tail_suffix _), hmatch⟩

/-- **One round keeps what was found out.** -/
theorem GlobRound.scanned {pat txt : List Char} {s s' : GlobState}
    (hround : GlobRound pat txt s (.go s')) (hs : Scanned pat txt s) : Scanned pat txt s' := by
  generalize hnext : Next.go s' = next at hround
  cases hround with
  | finish => cases hnext
  | fail => cases hnext
  | same hpat htxt hsame =>
      cases hnext
      exact hs.go_same hpat htxt hsame
  | star hpat htxt hd =>
      cases hnext
      exact hs.go_star hpat htxt hd
  | back htxt hstuck hstar =>
      cases hnext
      exact hs.go_back (htxt ▸ not_starSame_of_stuck hstuck) hstar

/-- The answer of a round that stops is whether there is a match. -/
theorem GlobRound.answer {pat txt : List Char} {s : GlobState} {a : Bool}
    (hround : GlobRound pat txt s (.stop a)) (hs : Scanned pat txt s) :
    a = true ↔ StarSame pat txt := by
  generalize hnext : Next.stop a = next at hround
  cases hround with
  | same => cases hnext
  | star => cases hnext
  | back => cases hnext
  | finish htxt =>
      cases hnext
      rw [← starSame_nil, hs.same, htxt]
      refine ⟨.inl, ?_⟩
      rintro (h | h)
      · exact h
      · obtain ⟨v, hv, hmatch⟩ := hs.behind h
        rw [htxt, List.suffix_nil] at hv
        rwa [hv] at hmatch
  | fail htxt hstuck hstar =>
      cases hnext
      have hnone : ¬ StarSame (pat.drop s.p) (txt.drop s.t) := htxt ▸ not_starSame_of_stuck hstuck
      simp [hs.same, hnone, hstar]

/-- The loop stops with whether the text matches, stars that meet stars taken as characters. -/
theorem globLoop_answer {pat txt : List Char} {rounds : Nat} {answer : Bool}
    (hrun : globLoop rounds pat txt = some (.stop answer)) :
    answer = true ↔ StarSame pat txt := by
  refine Loop.run_stop_of_inv (fun s ↦ s.InBounds pat txt ∧ Scanned pat txt s)
    (fun answer ↦ answer = true ↔ StarSame pat txt) ?_ ?_
    ⟨GlobState.inBounds_init pat txt, scanned_init pat txt⟩ hrun
  · rintro s s' ⟨hin, hs⟩ hbody
    obtain ⟨next, hnext, hround⟩ := globBody_spec txt hin.p_le
    cases hnext.symm.trans hbody
    exact ⟨(hround.inBounds hin).1, hround.scanned hs⟩
  · rintro s a ⟨hin, hs⟩ hbody
    obtain ⟨next, hnext, hround⟩ := globBody_spec txt hin.p_le
    cases hnext.symm.trans hbody
    exact hround.answer hs

theorem globMatches_iff_starSame (pattern text : String) :
    globMatches pattern text = true ↔ StarSame pattern.toList text.toList := by
  obtain ⟨answer, hstop⟩ := globLoop_stops pattern.toList text.toList
  rw [globMatches, hstop, ← globLoop_answer hstop]
  cases answer <;> decide

/-- Reading a star as the star it meets allows fewer matches. -/
theorem StarSame.matches {pattern text : List Char} (h : StarSame pattern text) :
    Matches pattern text :=
  Expands.mono (fun _ _ _ hc ↦ hc.1) h

/-- A text without a star matches in both readings or in neither. -/
theorem starSame_iff_of_notMem {pattern text : List Char} (hstar : '*' ∉ text) :
    StarSame pattern text ↔ Matches pattern text := by
  refine ⟨StarSame.matches, fun h ↦ ?_⟩
  induction h with
  | nil => exact .nil
  | @cons c p u v hc _ ih =>
      refine .cons ⟨hc, fun _ hhead ↦ ?_⟩ (ih fun hmem ↦ hstar (List.mem_append_right u hmem))
      exact absurd (List.mem_of_head? hhead) hstar

/-- Names without a star, as those of units, are matched as documented. -/
theorem globMatches_of_notMem {pattern text : String} (hstar : '*' ∉ text.toList) :
    globMatches pattern text = true ↔ Matches pattern.toList text.toList :=
  (globMatches_iff_starSame pattern text).trans (starSame_iff_of_notMem hstar)

/-- **`glob_matches`** answers whether the text matches the pattern exactly where a text that
matches still does so with every star that meets a star of the text taken as that character. -/
theorem globMatches_correct_iff (pattern text : String) :
    (globMatches pattern text = true ↔ Matches pattern.toList text.toList) ↔
      (Matches pattern.toList text.toList → StarSame pattern.toList text.toList) := by
  rw [globMatches_iff_starSame]
  exact ⟨Iff.mpr, fun h ↦ ⟨StarSame.matches, h⟩⟩

theorem globMatches_star_of_star :
    ¬ ∀ pattern text : String,
      globMatches pattern text = true ↔ Matches pattern.toList text.toList := by
  intro h
  have hmatch : Matches "*".toList "*a".toList :=
    .cons (u := "*a".toList) (v := []) (.inl rfl) .nil
  exact absurd ((h "*" "*a").mpr hmatch) (by decide)

end Vaiexia.Backend
