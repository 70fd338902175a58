import Mathlib.Data.List.Basic

/-!
# Programs that call their environment

A program is a tree of calls: `A c` has the answers to a call `c`, and any of them may be given at
any time, so the environment may be in any state and may change it.  A run may stop between any two
calls, with the process.

`wp` says what is to be shown of a program so that every call is allowed after those before it,
every failure has a cause in them, and a result is as it should be.  That it is enough is
`Calls.Does.sound`.
-/

namespace Vaiexia.Lib

/-- A program that calls its environment and may fail. -/
inductive Calls {C : Type} (A : C → Type) (ε α : Type) : Type where
  | pure (a : α)
  | throw (e : ε)
  | call (c : C) (next : A c → Calls A ε α)

namespace Calls

variable {C : Type} {A : C → Type} {ε α β : Type}

/-- One program after the other. -/
def bind : Calls A ε α → (α → Calls A ε β) → Calls A ε β
  | pure a, f => f a
  | throw e, _ => throw e
  | call c next, f => call c fun answer ↦ (next answer).bind f

instance : Monad (Calls A ε) where
  pure := pure
  bind := bind

/-- A single call. -/
def perform (c : C) : Calls A ε (A c) := call c pure

/-- An answer that may be an error. -/
def ofExcept {δ : Type} (f : δ → ε) : Except δ α → Calls A ε α
  | .ok a => pure a
  | .error d => throw (f d)

/-- A program for each element of a list, one after the other. -/
def each (f : α → Calls A ε β) : List α → Calls A ε (List β)
  | [] => pure []
  | x :: xs => (f x).bind fun y ↦ (each f xs).bind fun ys ↦ pure (y :: ys)

/-- Calls with their answers. -/
abbrev History (A : C → Type) : Type := List (Σ c, A c)

/-- What a program does, and its result if it comes to one. -/
inductive Does : Calls A ε α → History A → Option (Except ε α) → Prop
  | stopped {p : Calls A ε α} : Does p [] none
  | pure {a : α} : Does (.pure a) [] (some (.ok a))
  | throw {e : ε} : Does (.throw e) [] (some (.error e))
  | call {c : C} {next : A c → Calls A ε α} (answer : A c) {t : History A}
      {r : Option (Except ε α)} (h : Does (next answer) t r) :
      Does (.call c next) (⟨c, answer⟩ :: t) r

/-- A program in an environment that gives one answer to each call. -/
def follow (answer : (c : C) → A c) : Calls A ε α → History A × Except ε α
  | pure a => ([], .ok a)
  | throw e => ([], .error e)
  | call c next =>
      let (t, r) := (next (answer c)).follow answer
      (⟨c, answer c⟩ :: t, r)

theorem does_follow (answer : (c : C) → A c) (p : Calls A ε α) :
    Does p (p.follow answer).1 (some (p.follow answer).2) := by
  induction p with
  | pure a => exact .pure
  | throw e => exact .throw
  | call c next ih => exact .call (answer c) (ih (answer c))

/-- Which calls are allowed after others, and which failures have a cause in them. -/
structure Policy (A : C → Type) (ε : Type) where
  allowed : History A → C → Prop
  caused : History A → ε → Prop

/-- What is to be shown of a program that goes on after some calls. -/
def wp (G : Policy A ε) : Calls A ε α → (α → History A → Prop) → History A → Prop
  | pure a, Q, h => Q a h
  | throw e, _, h => G.caused h e
  | call c next, Q, h => G.allowed h c ∧ ∀ answer, (next answer).wp G Q (h ++ [⟨c, answer⟩])

section

variable {G : Policy A ε} {Q : α → History A → Prop} {h : History A}

theorem wp_mono {Q' : α → History A → Prop} {p : Calls A ε α} (hp : p.wp G Q h)
    (hQ : ∀ a h', Q a h' → Q' a h') : p.wp G Q' h := by
  induction p generalizing h with
  | pure a => exact hQ a h hp
  | throw e => exact hp
  | call c next ih => exact ⟨hp.1, fun answer ↦ ih answer (hp.2 answer)⟩

/-- **One program after the other**: what the first one leaves is enough for the second one. -/
theorem wp_bind {p : Calls A ε α} {f : α → Calls A ε β} {Q : β → History A → Prop} :
    (p >>= f).wp G Q h ↔ p.wp G (fun a h' ↦ (f a).wp G Q h') h := by
  show (p.bind f).wp G Q h ↔ _
  induction p generalizing h with
  | pure a => exact Iff.rfl
  | throw e => exact Iff.rfl
  | call c next ih => exact and_congr_right fun _ ↦ forall_congr' fun answer ↦ ih answer

theorem wp_ofExcept {δ : Type} {f : δ → ε} {x : Except δ α} (hok : ∀ a, x = .ok a → Q a h)
    (herror : ∀ d, x = .error d → G.caused h (f d)) : (ofExcept f x : Calls A ε α).wp G Q h := by
  cases x with
  | ok a => exact hok a rfl
  | error d => exact herror d rfl

theorem wp_each_after {f : α → Calls A ε β} (J : List α → List β → History A → Prop)
    {all xs done : List α} {ys : List β} (hall : all = done ++ xs) (hJ : J done ys h)
    (hstep : ∀ done x rest ys h, all = done ++ x :: rest → J done ys h →
      (f x).wp G (fun y h' ↦ J (done ++ [x]) (ys ++ [y]) h') h) :
    (each f xs).wp G (fun zs h' ↦ J all (ys ++ zs) h') h := by
  induction xs generalizing done ys h with
  | nil =>
      show J all (ys ++ []) h
      rwa [hall, List.append_nil, List.append_nil]
  | cons x xs ih =>
      refine wp_bind.mpr (wp_mono (hstep done x xs ys h hall hJ) fun y h' hJ' ↦ ?_)
      have hlater := ih (hall.trans (List.append_cons done x xs)) hJ'
      refine wp_bind.mpr (wp_mono hlater fun zs h'' hJ'' ↦ ?_)
      show J all (ys ++ y :: zs) h''
      rwa [List.append_cons]

/-- **A program for each element**, with what holds after some of them. -/
theorem wp_each {f : α → Calls A ε β} (J : List α → List β → History A → Prop) {xs : List α}
    (hJ : J [] [] h)
    (hstep : ∀ done x rest ys h, xs = done ++ x :: rest → J done ys h →
      (f x).wp G (fun y h' ↦ J (done ++ [x]) (ys ++ [y]) h') h) :
    (each f xs).wp G (fun zs h' ↦ J xs zs h') h :=
  wp_each_after J rfl hJ hstep

/-- What was called stays so. -/
theorem wp_grows {p : Calls A ε α} (hp : p.wp G Q h) :
    p.wp G (fun a h' ↦ Q a h' ∧ h <+: h') h := by
  induction p generalizing h with
  | pure a => exact ⟨hp, List.prefix_refl h⟩
  | throw e => exact hp
  | call c next ih =>
      refine ⟨hp.1, fun answer ↦ wp_mono (ih answer (hp.2 answer)) fun a h' hlater ↦ ?_⟩
      exact ⟨hlater.1, (List.prefix_append h _).trans hlater.2⟩

/-- **Every call is allowed, and every failure has a cause**, in every run that goes on after
`h`. -/
theorem Does.sound {p : Calls A ε α} {t : History A} {r : Option (Except ε α)} (hdoes : Does p t r)
    (hp : p.wp G Q h) :
    (∀ before c answer after, t = before ++ ⟨c, answer⟩ :: after → G.allowed (h ++ before) c) ∧
      (∀ e, r = some (.error e) → G.caused (h ++ t) e) ∧
      ∀ a, r = some (.ok a) → Q a (h ++ t) := by
  induction hdoes generalizing h with
  | stopped =>
      refine ⟨fun before c answer after heq ↦ ?_, (fun _ heq ↦ by cases heq),
        fun _ heq ↦ by cases heq⟩
      cases before <;> cases heq
  | pure =>
      refine ⟨fun before c answer after heq ↦ ?_, (fun _ heq ↦ by cases heq),
        fun a heq ↦ ?_⟩
      · cases before <;> cases heq
      · obtain rfl := Except.ok.inj (Option.some.inj heq)
        rw [List.append_nil]
        exact hp
  | throw =>
      refine ⟨fun before c answer after heq ↦ ?_, fun e heq ↦ ?_, fun _ heq ↦ by cases heq⟩
      · cases before <;> cases heq
      · obtain rfl := Except.error.inj (Option.some.inj heq)
        rw [List.append_nil]
        exact hp
  | @call c next answer t r _ ih =>
      obtain ⟨hallowed, hcaused, hresult⟩ := ih (hp.2 answer)
      rw [List.append_assoc] at hcaused hresult
      refine ⟨fun before c' answer' after heq ↦ ?_, hcaused, hresult⟩
      cases before with
      | nil =>
          obtain ⟨hcall, -⟩ := List.cons.inj heq
          cases hcall
          rw [List.append_nil]
          exact hp.1
      | cons e before =>
          obtain ⟨rfl, htail⟩ := List.cons.inj heq
          have hlater := hallowed before c' answer' after htail
          rwa [List.append_assoc] at hlater

end

end Calls

end Vaiexia.Lib
