import Mathlib.Algebra.Ring.Nat
import Mathlib.Data.List.Pairwise
import Mathlib.Logic.Function.Basic
import Mathlib.Logic.Relation

/-!
# The event pumps

`crates/vaiexia-server/src/events`, with the pumps that `build_service` of `lifecycle.rs` starts.
The future of a pump receives and sends until it returns or panics; `spawn_supervised` then waits
and lets the factory make another one.  Three factories capture the `SeqCounter` of `build_service`,
and `status_pump::run` makes one of its own.

`Pumps` has all four of them in any interleaving.  `increasing_iff` says when the numbers of every
topic increase, and the sections before it what each step keeps.
-/

namespace Vaiexia.Events

/-! ## Pumps -/

/-- The pumps, one for each topic. -/
inductive Pump where
  | metrics | status | jobs | logs
deriving DecidableEq, Repr

/-- `topics`. -/
def Pump.topic : Pump → String
  | metrics => "server.metrics"
  | status => "server.services.status"
  | jobs => "server.jobs"
  | logs => "server.logs"

/-- What there is of the future of a pump. -/
inductive PumpPhase where
  /-- There is none: the factory was not called yet, or the supervisor waits. -/
  | backoff
  | receiving
  /-- It has built an event and not sent it yet. -/
  | built (seq : UInt64)
deriving DecidableEq

/-- An event that was sent, with the number of the future that sent it, which is not part of the
program.  The payload is left out. -/
structure Event where
  pump : Pump
  future : Nat
  seq : UInt64
deriving DecidableEq

/-- The counters and the pumps; and how many futures were made of each, and how many events were
built, which is not part of the program. -/
structure Pumps where
  shared : UInt64
  own : UInt64
  phase : Pump → PumpPhase
  futures : Pump → Nat
  sent : List Event
  built : Nat

namespace Pumps

/-- What `build_service` leaves. -/
def new : Pumps where
  shared := 0
  own := 0
  phase := fun _ ↦ .backoff
  futures := fun _ ↦ 0
  sent := []
  built := 0

/-- The counter that the future of a pump has. -/
def counter (s : Pumps) : Pump → UInt64
  | .status => s.own
  | _ => s.shared

/-- `SeqCounter::next` on it leaves this. -/
def next (s : Pumps) : Pump → Pumps
  | .status => { s with own := s.own + 1 }
  | _ => { s with shared := s.shared + 1 }

/-- The factory is called; the future of the status pump begins with a counter of its own. -/
def renew (s : Pumps) : Pump → Pumps
  | .status => { s with own := 0 }
  | _ => s

/-- One step of a pump and its supervisor. -/
inductive Step (p : Pump) : Pumps → Pumps → Prop
  | start {s : Pumps} (hp : s.phase p = .backoff) :
      Step p s { s.renew p with
        phase := Function.update s.phase p .receiving
        futures := Function.update s.futures p (s.futures p + 1) }
  /-- Nothing was received: the receiver lags behind, or there is no snapshot. -/
  | skip {s : Pumps} (hp : s.phase p = .receiving) : Step p s s
  | build {s : Pumps} (hp : s.phase p = .receiving) :
      Step p s { s.next p with
        phase := Function.update s.phase p (.built (s.counter p))
        built := s.built + 1 }
  | send {s : Pumps} {seq : UInt64} (hp : s.phase p = .built seq) :
      Step p s { s with
        phase := Function.update s.phase p .receiving
        sent := s.sent ++ [⟨p, s.futures p, seq⟩] }
  /-- The future returns or panics. -/
  | stop {s : Pumps} (hp : s.phase p ≠ .backoff) :
      Step p s { s with phase := Function.update s.phase p .backoff }

/-- Any interleaving of the pumps. -/
abbrev Run : Pumps → Pumps → Prop := Relation.ReflTransGen fun s s' ↦ ∃ p, Step p s s'

/-- The numbers that were sent on a topic. -/
def seqs (topic : String) (s : Pumps) : List UInt64 :=
  (s.sent.filter (·.pump.topic = topic)).map Event.seq

/-- The numbers of every topic increase. -/
def Increasing (s : Pumps) : Prop := ∀ p : Pump, (s.seqs p.topic).Pairwise (· < ·)

/-- All status events are from one future. -/
def StatusOnce (s : Pumps) : Prop :=
  ∀ e ∈ s.sent, ∀ e' ∈ s.sent, e.pump = .status → e'.pump = .status → e.future = e'.future

/-! ## Numbers -/

theorem toNat_succ {x : UInt64} (h : x.toNat + 1 < 2 ^ 64) : (x + 1).toNat = x.toNat + 1 := by
  rw [UInt64.toNat_add]
  exact Nat.mod_eq_of_lt h

/-- Each topic has its own pump, so that what increases are the numbers of each pump. -/
theorem increasing_iff_pairwise {s : Pumps} :
    Increasing s ↔ s.sent.Pairwise fun a b ↦ a.pump = b.pump → a.seq < b.seq := by
  have htopic : Function.Injective Pump.topic := by
    intro p q
    cases p <;> cases q <;> decide
  simp only [Increasing, seqs, List.pairwise_map, List.pairwise_filter, decide_eq_true_eq]
  constructor
  · intro h
    rw [List.pairwise_iff_forall_sublist]
    intro a b hab hpump
    exact List.pairwise_iff_forall_sublist.mp (h a.pump) hab rfl (by rw [hpump])
  · intro h p
    refine h.imp fun {a b} hab ha hb ↦ hab (htopic (ha.trans hb.symm))

section Counter

variable {s : Pumps} {p q : Pump}

@[simp] theorem sent_next : (s.next p).sent = s.sent := by cases p <;> rfl
@[simp] theorem futures_next : (s.next p).futures = s.futures := by cases p <;> rfl
@[simp] theorem sent_renew : (s.renew p).sent = s.sent := by cases p <;> rfl
@[simp] theorem built_renew : (s.renew p).built = s.built := by cases p <;> rfl

/-- Only the status pump gets a new counter. -/
theorem counter_renew_of_ne (h : p ≠ .status ∨ q ≠ .status) :
    (s.renew p).counter q = s.counter q := by
  cases p <;> cases q <;> first | rfl | exact absurd h (by decide)

/-- The future that builds an event leaves its own counter at the next number. -/
theorem toNat_counter_next (h : (s.counter p).toNat + 1 < 2 ^ 64) :
    ((s.next p).counter p).toNat = (s.counter p).toNat + 1 := by
  cases p <;> exact toNat_succ h

/-- The counter of another pump stays, or it is the same counter. -/
theorem counter_next_of_ne (hne : q ≠ p) :
    (s.next p).counter q = s.counter q ∨
      s.counter q = s.counter p ∧ (s.next p).counter q = (s.next p).counter p := by
  cases p <;> cases q <;> first | exact absurd rfl hne | exact .inl rfl | exact .inr ⟨rfl, rfl⟩

/-- No counter goes back when an event is built. -/
theorem le_counter_next (h : (s.counter p).toNat + 1 < 2 ^ 64) :
    s.counter q ≤ (s.next p).counter q := by
  have hown : s.counter p ≤ (s.next p).counter p := by
    rw [UInt64.le_iff_toNat_le, toNat_counter_next h]
    exact Nat.le_succ _
  by_cases hne : q = p
  · subst hne
    exact hown
  · rcases counter_next_of_ne (s := s) hne with heq | ⟨heq, heq'⟩
    · exact UInt64.le_of_eq heq.symm
    · rw [heq, heq']
      exact hown

end Counter

/-! ## The invariant -/

/-- The event was numbered by the counter that its pump has now. -/
def Live (s : Pumps) (e : Event) : Prop := e.pump = .status → e.future = s.futures .status

/-- The invariant. -/
structure Inv (s : Pumps) : Prop where
  count : ∀ p, (s.counter p).toNat ≤ s.built
  fresh : ∀ e ∈ s.sent, s.Live e → e.seq < s.counter e.pump
  held : ∀ p seq, s.phase p = .built seq →
    seq < s.counter p ∧ ∀ e ∈ s.sent, e.pump = p → s.Live e → e.seq < seq
  sorted : s.sent.Pairwise fun a b ↦
    a.pump = b.pump → (a.pump = .status → a.future = b.future) → a.seq < b.seq
  future_le : ∀ e ∈ s.sent, e.future ≤ s.futures e.pump
  ordered : s.sent.Pairwise fun a b ↦ a.pump = .status → b.pump = .status → a.future ≤ b.future
  first : ∀ e ∈ s.sent, e.pump = .status →
    ∃ e' ∈ s.sent, e'.pump = .status ∧ e'.future = e.future ∧ e'.seq = 0
  begun : (∀ e ∈ s.sent, e.pump = .status → e.future ≠ s.futures .status) →
    (s.phase .status = .receiving → s.own = 0) ∧
      ∀ seq, s.phase .status = .built seq → seq = 0

section Invariant

variable {s s' : Pumps} {p : Pump}

theorem Inv.new : Inv new where
  count := by
    intro p
    cases p <;> exact Nat.le_refl _
  fresh := nofun
  held := nofun
  sorted := .nil
  future_le := nofun
  ordered := .nil
  first := nofun
  begun := fun _ ↦ ⟨nofun, nofun⟩

/-- A new future of the status pump counts from the beginning, and has sent nothing. -/
theorem Inv.start (h : Inv s) (hp : s.phase p = .backoff) :
    Inv { s.renew p with
      phase := Function.update s.phase p .receiving
      futures := Function.update s.futures p (s.futures p + 1) } := by
  have hcounter : ∀ q, (counter { s.renew p with
      phase := Function.update s.phase p .receiving
      futures := Function.update s.futures p (s.futures p + 1) } q) = (s.renew p).counter q := by
    intro q
    cases q <;> rfl
  -- the events of another pump keep their counter, and those of this one are from an old future
  have hlive : ∀ e ∈ s.sent, (e.pump = .status →
      e.future = Function.update s.futures p (s.futures p + 1) .status) →
      s.Live e ∧ (p ≠ .status ∨ e.pump ≠ .status) := by
    intro e he hfuture
    by_cases hstatus : p = .status
    · subst hstatus
      have hother : e.pump ≠ .status := by
        intro hpump
        have hle := h.future_le e he
        have hnew := hfuture hpump
        rw [Function.update_self] at hnew
        rw [hpump] at hle
        omega
      exact ⟨fun hpump ↦ absurd hpump hother, .inr hother⟩
    · refine ⟨fun hpump ↦ ?_, .inl hstatus⟩
      have hsame := hfuture hpump
      rwa [Function.update_of_ne (Ne.symm hstatus)] at hsame
  refine ⟨fun q ↦ ?_, ?_, ?_, ?_, ?_, ?_, ?_, ?_⟩
  · rw [hcounter]
    dsimp only
    rw [built_renew]
    by_cases hq : p ≠ .status ∨ q ≠ .status
    · rw [counter_renew_of_ne hq]
      exact h.count q
    · obtain ⟨rfl, rfl⟩ : p = .status ∧ q = .status := by simpa only [not_or, not_not] using hq
      exact Nat.zero_le _
  · intro e he hfuture
    dsimp only at he
    rw [sent_renew] at he
    obtain ⟨hold, hcases⟩ := hlive e he hfuture
    rw [hcounter, counter_renew_of_ne hcases]
    exact h.fresh e he hold
  · intro q seq hq
    have hne : q ≠ p := by
      rintro rfl
      dsimp only at hq
      rw [Function.update_self] at hq
      cases hq
    dsimp only at hq ⊢
    rw [Function.update_of_ne hne] at hq
    have hcases : p ≠ .status ∨ q ≠ .status := by
      by_contra hboth
      simp only [not_or, not_not] at hboth
      exact hne (hboth.2.trans hboth.1.symm)
    obtain ⟨hlt, hall⟩ := h.held q seq hq
    rw [hcounter, counter_renew_of_ne hcases, sent_renew]
    exact ⟨hlt, fun e he hpump hfuture ↦ hall e he hpump (hlive e he hfuture).1⟩
  · dsimp only
    rw [sent_renew]
    exact h.sorted
  · intro e he
    dsimp only at he ⊢
    rw [sent_renew] at he
    have hle := h.future_le e he
    by_cases hne : e.pump = p
    · rw [hne, Function.update_self]
      rw [hne] at hle
      omega
    · rw [Function.update_of_ne hne]
      exact hle
  · dsimp only
    rw [sent_renew]
    exact h.ordered
  · dsimp only
    rw [sent_renew]
    exact h.first
  · dsimp only
    rw [sent_renew]
    intro hnone
    by_cases hstatus : p = .status
    · subst hstatus
      rw [Function.update_self]
      exact ⟨fun _ ↦ rfl, nofun⟩
    · rw [Function.update_of_ne (Ne.symm hstatus)] at hnone ⊢
      obtain ⟨hown, hseq⟩ := h.begun hnone
      refine ⟨fun hreceiving ↦ ?_, hseq⟩
      exact (counter_renew_of_ne (q := .status) (.inl hstatus)).trans (hown hreceiving)

/-- An event that is built takes the next number. -/
theorem Inv.build (h : Inv s) (hp : s.phase p = .receiving) (hbuilt : s.built + 1 < 2 ^ 64) :
    Inv { s.next p with
      phase := Function.update s.phase p (.built (s.counter p))
      built := s.built + 1 } := by
  have hcounter : ∀ q, (counter { s.next p with
      phase := Function.update s.phase p (.built (s.counter p))
      built := s.built + 1 } q) = (s.next p).counter q := by
    intro q
    cases q <;> rfl
  have hroom : (s.counter p).toNat + 1 < 2 ^ 64 := by
    have hcount := h.count p
    omega
  have hlive : ∀ e, Live { s.next p with
      phase := Function.update s.phase p (.built (s.counter p))
      built := s.built + 1 } e ↔ s.Live e := by
    intro e
    unfold Live
    dsimp only
    rw [futures_next]
  refine ⟨fun q ↦ ?_, ?_, ?_, ?_, ?_, ?_, ?_, ?_⟩
  · rw [hcounter]
    by_cases hne : q = p
    · subst hne
      rw [toNat_counter_next hroom]
      exact Nat.succ_le_succ (h.count q)
    · rcases counter_next_of_ne (s := s) hne with heq | ⟨-, heq⟩
      · rw [heq]
        exact Nat.le_succ_of_le (h.count q)
      · rw [heq, toNat_counter_next hroom]
        exact Nat.succ_le_succ (h.count p)
  · intro e he hfuture
    dsimp only at he
    rw [sent_next] at he
    rw [hcounter]
    exact UInt64.lt_of_lt_of_le (h.fresh e he ((hlive e).mp hfuture)) (le_counter_next hroom)
  · intro q seq hq
    rw [hcounter]
    dsimp only at hq ⊢
    rw [sent_next]
    by_cases hne : q = p
    · subst hne
      rw [Function.update_self] at hq
      obtain rfl := PumpPhase.built.inj hq
      refine ⟨?_, fun e he hpump hfuture ↦ ?_⟩
      · rw [UInt64.lt_iff_toNat_lt, toNat_counter_next hroom]
        exact Nat.lt_succ_self _
      · have hlt := h.fresh e he ((hlive e).mp hfuture)
        rwa [hpump] at hlt
    · rw [Function.update_of_ne hne] at hq
      obtain ⟨hlt, hall⟩ := h.held q seq hq
      exact ⟨UInt64.lt_of_lt_of_le hlt (le_counter_next hroom),
        fun e he hpump hfuture ↦ hall e he hpump ((hlive e).mp hfuture)⟩
  · dsimp only
    rw [sent_next]
    exact h.sorted
  · dsimp only
    rw [sent_next, futures_next]
    exact h.future_le
  · dsimp only
    rw [sent_next]
    exact h.ordered
  · dsimp only
    rw [sent_next]
    exact h.first
  · dsimp only
    rw [sent_next, futures_next]
    intro hnone
    obtain ⟨hown, hseq⟩ := h.begun hnone
    by_cases hstatus : p = .status
    · subst hstatus
      rw [Function.update_self]
      refine ⟨nofun, fun seq hbuilt ↦ ?_⟩
      exact (PumpPhase.built.inj hbuilt).symm.trans (hown hp)
    · rw [Function.update_of_ne (Ne.symm hstatus)]
      refine ⟨fun hreceiving ↦ ?_, hseq⟩
      have hsame : (s.next p).own = s.own := by
        cases p <;> first | rfl | exact absurd rfl hstatus
      rw [hsame]
      exact hown hreceiving

/-- An event that is sent is the last one. -/
theorem Inv.send (h : Inv s) {seq : UInt64} (hp : s.phase p = .built seq) :
    Inv { s with
      phase := Function.update s.phase p .receiving
      sent := s.sent ++ [⟨p, s.futures p, seq⟩] } := by
  obtain ⟨hlt, hall⟩ := h.held p seq hp
  refine ⟨?_, ?_, ?_, ?_, ?_, ?_, ?_, ?_⟩
  · intro q
    have hcount := h.count q
    cases q <;> exact hcount
  · intro e he hfuture
    rcases List.mem_append.mp he with he | he
    · have hfresh := h.fresh e he hfuture
      cases hpump : e.pump <;> simpa only [hpump, counter] using hfresh
    · obtain rfl := List.mem_singleton.mp he
      cases p <;> exact hlt
  · intro q seq' hq
    have hne : q ≠ p := by
      rintro rfl
      dsimp only at hq
      rw [Function.update_self] at hq
      cases hq
    dsimp only at hq
    rw [Function.update_of_ne hne] at hq
    obtain ⟨hlt', hall'⟩ := h.held q seq' hq
    refine ⟨by cases q <;> exact hlt', fun e he hpump hfuture ↦ ?_⟩
    rcases List.mem_append.mp he with he | he
    · exact hall' e he hpump hfuture
    · obtain rfl := List.mem_singleton.mp he
      exact absurd hpump.symm hne
  · rw [List.pairwise_append]
    refine ⟨h.sorted, List.pairwise_singleton _ _, fun a ha b hb hpump hfuture ↦ ?_⟩
    obtain rfl := List.mem_singleton.mp hb
    refine hall a ha hpump fun hstatus ↦ ?_
    obtain rfl : p = .status := hpump.symm.trans hstatus
    exact hfuture hstatus
  · intro e he
    rcases List.mem_append.mp he with he | he
    · exact h.future_le e he
    · obtain rfl := List.mem_singleton.mp he
      exact Nat.le_refl _
  · rw [List.pairwise_append]
    refine ⟨h.ordered, List.pairwise_singleton _ _, fun a ha b hb hpump hpump' ↦ ?_⟩
    obtain rfl := List.mem_singleton.mp hb
    have hle := h.future_le a ha
    rw [hpump] at hle
    obtain rfl : p = .status := hpump'
    exact hle
  · intro e he hpump
    rcases List.mem_append.mp he with he | he
    · obtain ⟨e', he', hfirst⟩ := h.first e he hpump
      exact ⟨e', List.mem_append_left _ he', hfirst⟩
    · obtain rfl := List.mem_singleton.mp he
      obtain rfl : p = .status := hpump
      by_cases hany : ∃ a ∈ s.sent, a.pump = .status ∧ a.future = s.futures .status
      · obtain ⟨a, ha, hapump, hafuture⟩ := hany
        obtain ⟨e', he', hpump', hfuture', hzero⟩ := h.first a ha hapump
        exact ⟨e', List.mem_append_left _ he', hpump', hfuture'.trans hafuture, hzero⟩
      · have hbegun := h.begun fun e he hpump hfuture ↦ hany ⟨e, he, hpump, hfuture⟩
        exact ⟨_, List.mem_append_right _ List.mem_cons_self, rfl, rfl, hbegun.2 seq hp⟩
  · intro hnone
    by_cases hstatus : p = .status
    · subst hstatus
      exact absurd rfl (hnone _ (List.mem_append_right _ List.mem_cons_self) rfl)
    · dsimp only
      rw [Function.update_of_ne (Ne.symm hstatus)]
      exact h.begun fun e he ↦ hnone e (List.mem_append_left _ he)

/-- A future that is over has sent what it has sent. -/
theorem Inv.stop (h : Inv s) :
    Inv { s with phase := Function.update s.phase p .backoff } := by
  refine ⟨?_, ?_, ?_, h.sorted, h.future_le, h.ordered, h.first, ?_⟩
  · intro q
    have hcount := h.count q
    cases q <;> exact hcount
  · intro e he hfuture
    have hfresh := h.fresh e he hfuture
    cases hpump : e.pump <;> simpa only [hpump, counter] using hfresh
  · intro q seq hq
    have hne : q ≠ p := by
      rintro rfl
      dsimp only at hq
      rw [Function.update_self] at hq
      cases hq
    dsimp only at hq
    rw [Function.update_of_ne hne] at hq
    obtain ⟨hlt, hall⟩ := h.held q seq hq
    exact ⟨by cases q <;> exact hlt, hall⟩
  · intro hnone
    by_cases hstatus : p = .status
    · subst hstatus
      dsimp only
      rw [Function.update_self]
      exact ⟨nofun, nofun⟩
    · dsimp only
      rw [Function.update_of_ne (Ne.symm hstatus)]
      exact h.begun hnone

/-- **A step keeps the invariant**, until the counters overflow. -/
theorem Step.inv (hstep : Step p s s') (hbuilt : s'.built < 2 ^ 64) (h : Inv s) : Inv s' := by
  cases hstep with
  | start hp => exact h.start hp
  | skip => exact h
  | build hp => exact h.build hp hbuilt
  | send hp => exact h.send hp
  | stop => exact h.stop

/-- Events are only built. -/
theorem Step.built_le (hstep : Step p s s') : s.built ≤ s'.built := by
  cases hstep with
  | start => exact Nat.le_of_eq built_renew.symm
  | skip => exact Nat.le_refl _
  | build => exact Nat.le_succ _
  | send => exact Nat.le_refl _
  | stop => exact Nat.le_refl _

/-- **Every run keeps it.** -/
theorem Run.inv (hrun : Run new s) (hbuilt : s.built < 2 ^ 64) : Inv s := by
  induction hrun with
  | refl => exact .new
  | tail _ hmove ih =>
      obtain ⟨p, hstep⟩ := hmove
      exact hstep.inv hbuilt (ih (Nat.lt_of_le_of_lt hstep.built_le hbuilt))

/-! ## When the numbers increase -/

/-- Of two members of a list that is in order, one comes before the other. -/
theorem pairwise_of_ne {α : Type*} {R : α → α → Prop} {l : List α} {a b : α} (h : l.Pairwise R)
    (ha : a ∈ l) (hb : b ∈ l) (hne : a ≠ b) : R a b ∨ R b a := by
  have hboth : l.Pairwise (Relation.SymmGen R) := h.imp .inl
  exact hboth.forall ha hb hne

/-- Two futures of the status pump both begin at zero. -/
theorem Inv.statusOnce (h : Inv s) (hincreasing : Increasing s) : StatusOnce s := by
  rw [increasing_iff_pairwise] at hincreasing
  -- the first event of the later future has a number that no earlier event can be below
  have hlater : ∀ e ∈ s.sent, ∀ e' ∈ s.sent, e.pump = .status → e'.pump = .status →
      ¬ e.future < e'.future := by
    intro e he e' he' hpump hpump' hlt
    obtain ⟨a, ha, hapump, hafuture, hzero⟩ := h.first e' he' hpump'
    have hne : e ≠ a := by
      rintro rfl
      omega
    rcases pairwise_of_ne (hincreasing.and h.ordered) he ha hne with ⟨hseq, -⟩ | ⟨-, hfuture⟩
    · have hbelow := hseq (hpump.trans hapump.symm)
      rw [hzero] at hbelow
      exact absurd hbelow UInt64.not_lt_zero
    · have hle := hfuture hapump hpump
      omega
  intro e he e' he' hpump hpump'
  have h₁ := hlater e he e' he' hpump hpump'
  have h₂ := hlater e' he' e he hpump' hpump
  omega

/-- **When event numbers never go back.**  In every state that the pumps can reach, in any
interleaving, with futures that return or panic at any time and are made again, and with fewer than
2^64 events: the numbers of all four topics increase exactly if all status events are from one
future of the status pump. -/
theorem increasing_iff (hrun : Run new s) (hbuilt : s.built < 2 ^ 64) :
    Increasing s ↔ StatusOnce s := by
  have h := hrun.inv hbuilt
  constructor
  · exact h.statusOnce
  · intro honce
    rw [increasing_iff_pairwise]
    refine h.sorted.imp_of_mem fun {a b} ha hb hab hpump ↦ hab hpump fun hstatus ↦ ?_
    exact honce a ha b hb hstatus (hpump.symm.trans hstatus)

end Invariant

/-- The status pump sends an event, panics, is made again and sends another one: both have the
number zero. -/
theorem not_increasing :
    ∃ s, Run new s ∧ s.built < 2 ^ 64 ∧ s.seqs "server.services.status" = [0, 0] ∧
      ¬ Increasing s := by
  have hrun : Run new _ :=
    ((((((Relation.ReflTransGen.single ⟨.status, .start rfl⟩).tail
      ⟨.status, .build rfl⟩).tail ⟨.status, .send rfl⟩).tail ⟨.status, .stop nofun⟩).tail
      ⟨.status, .start rfl⟩).tail ⟨.status, .build rfl⟩).tail ⟨.status, .send rfl⟩
  refine ⟨_, hrun, ?_, rfl, fun hincreasing ↦ ?_⟩
  · decide
  · have hstatus := hincreasing .status
    revert hstatus
    decide

/-- The jobs pump sends an event, panics, is made again and sends another one, while one future of
the status pump sends two. -/
theorem increasing_iff_jobsAgain :
    ∃ s, Run new s ∧ s.seqs "server.services.status" = [0, 1] ∧ s.seqs "server.jobs" = [0, 1] ∧
      Increasing s := by
  have hrun : Run new _ :=
    (((((((((((Relation.ReflTransGen.single ⟨.status, .start rfl⟩).tail
      ⟨.status, .build rfl⟩).tail ⟨.status, .send rfl⟩).tail
      ⟨.jobs, .start rfl⟩).tail ⟨.jobs, .build rfl⟩).tail ⟨.jobs, .send rfl⟩).tail
      ⟨.jobs, .stop nofun⟩).tail ⟨.status, .build rfl⟩).tail ⟨.status, .send rfl⟩).tail
      ⟨.jobs, .start rfl⟩).tail ⟨.jobs, .build rfl⟩).tail ⟨.jobs, .send rfl⟩
  refine ⟨_, hrun, rfl, rfl, (increasing_iff hrun (by decide)).mpr ?_⟩
  have honce : ∀ e ∈ [(⟨.status, 1, 0⟩ : Event), ⟨.jobs, 1, 0⟩, ⟨.status, 1, 1⟩, ⟨.jobs, 2, 1⟩],
      ∀ e' ∈ [(⟨.status, 1, 0⟩ : Event), ⟨.jobs, 1, 0⟩, ⟨.status, 1, 1⟩, ⟨.jobs, 2, 1⟩],
        e.pump = .status → e'.pump = .status → e.future = e'.future := by
    decide
  exact honce

end Pumps

end Vaiexia.Events
