import Vaiexia.Backend.Services
import Vaiexia.Events.Relay

/-!
# Status events

`watch_loop` of `crates/vaiexia-server/src/backend/systemd/watch.rs` waits for the `JobRemoved`
signals of systemd, asks for the state of the unit of each, and sends it on the channel to which
`status_pump::run` subscribes.  Meanwhile the states of the units go on changing.

Time is counted in changes of states, so that a state was read at a moment of the history.
`status_events` says what a receiver of `server.services.status` can conclude from what it is given.
-/

namespace Vaiexia.Events

open Vaiexia.Lib Vaiexia.Backend

/-! ## Histories -/

/-- The changes of the units: the new `ActiveState`, or that the unit is not loaded any more. -/
abbrev History : Type := List (String × Option String)

/-- What the history says of a unit at a moment, if it is loaded then. -/
def History.at (history : History) (n : Nat) (unit : String) : Option String :=
  ((history.take n).filter (·.1 = unit)).getLast?.bind Prod.snd

/-- What comes later changes nothing. -/
theorem History.at_append {history : History} {n : Nat} (h : n ≤ history.length)
    (later : History) (unit : String) : (history ++ later).at n unit = history.at n unit := by
  unfold History.at
  rw [List.take_append_of_le_length h]

/-- A unit that has not changed since is as it was. -/
theorem History.at_of_unchanged {history : History} {m n : Nat} {unit : String} (hmn : m ≤ n)
    (h : ∀ change ∈ history.drop m, change.1 ≠ unit) : history.at n unit = history.at m unit := by
  have hsplit : history.take n = history.take m ++ (history.drop m).take (n - m) := by
    rw [← List.take_add, Nat.add_sub_cancel' hmn]
  have hnone : ((history.drop m).take (n - m)).filter (·.1 = unit) = [] := by
    rw [List.filter_eq_nil_iff]
    intro change hchange
    rw [decide_eq_true_eq]
    exact h change (List.mem_of_mem_take hchange)
  unfold History.at
  rw [hsplit, List.filter_append, hnone, List.append_nil]

/-- The state of a unit for `fetch_unit_state`, which cannot ask for one that is not loaded. -/
def History.state (history : History) (n : Nat) (unit : String) : ServiceState :=
  (history.at n unit).elim .unknown Systemd.activeStateFromDbus

/-! ## The watch -/

/-- A `JobRemoved` signal: the unit, unless its arguments cannot be read, and when it was sent. -/
structure JobRemoved where
  unit : Option String
  time : Nat

/-- What a signal is for the watch. -/
def JobRemoved.named (signal : JobRemoved) : Option (String × Nat) :=
  signal.unit.map fun unit ↦ (unit, signal.time)

/-- A status that the watch has made: of which unit, when its job was removed, when the state was
read, and whether that failed. -/
structure Reading where
  unit : String
  signalled : Nat
  read : Nat
  failed : Bool

/-- What is sent for a reading. -/
def Reading.status (history : History) (r : Reading) : UnitStatus where
  name := r.unit
  description := ""
  loadState := ""
  activeState := if r.failed then .unknown else history.state r.read r.unit
  subState := ""

/-- Where `watch_loop` is. -/
inductive WatchPhase where
  /-- Before `receive_job_removed` has returned. -/
  | subscribing
  | waiting
  /-- In `fetch_unit_state`, for a unit whose job was removed then. -/
  | fetching (unit : String) (signalled : Nat)
  | sending (r : Reading)
  | ended

/-- The signal that the watch is about. -/
def WatchPhase.inHand : WatchPhase → List (String × Nat)
  | fetching unit signalled => [(unit, signalled)]
  | sending r => [(r.unit, r.signalled)]
  | subscribing | waiting | ended => []

/-- The reading that is not sent yet. -/
def WatchPhase.unsent : WatchPhase → List Reading
  | sending r => [r]
  | subscribing | waiting | fetching _ _ | ended => []

/-- The watch listens to the bus. -/
def WatchPhase.Listening : WatchPhase → Prop
  | subscribing | ended => False
  | waiting | fetching _ _ | sending _ => True

/-- `status_pump::run`, with the channel that `SystemdServices::new` makes. -/
def statusFeed {β : Type} (topicCapacity : Nat) (payload : UnitStatus → β) : Feed UnitStatus β where
  capacity := 256
  topicCapacity := topicCapacity
  payload := payload

/-- The units of systemd, the watch with the signals that it has not seen yet, and the pump with its
channels; and the signals that were sent to the watch and what it has sent for them, which are not
part of the program. -/
structure StatusFeed (ρ β : Type) where
  history : History
  watch : WatchPhase
  inbox : List JobRemoved
  relay : Relay ρ UnitStatus β
  signals : List JobRemoved
  readings : List Reading

namespace StatusFeed

variable {ρ β : Type}

/-- Before the watch was spawned. -/
def new : StatusFeed ρ β where
  history := []
  watch := .subscribing
  inbox := []
  relay := .new
  signals := []
  readings := []

/-- One step of systemd, of the watch, of the pump, or of a receiver of the topic. -/
inductive Step [DecidableEq ρ] (feed : Feed UnitStatus β) : StatusFeed ρ β → StatusFeed ρ β → Prop
  | change {f : StatusFeed ρ β} (unit : String) (state : Option String) :
      Step feed f { f with history := f.history ++ [(unit, state)] }
  | signal {f : StatusFeed ρ β} (unit : Option String) (hlistening : f.watch.Listening) :
      Step feed f { f with
        inbox := f.inbox ++ [⟨unit, f.history.length⟩]
        signals := f.signals ++ [⟨unit, f.history.length⟩] }
  | subscribe {f : StatusFeed ρ β} (hwatch : f.watch = .subscribing) :
      Step feed f { f with watch := .waiting }
  /-- The watch cannot subscribe, or the connection is closed. -/
  | hangUp {f : StatusFeed ρ β} (hwatch : f.watch = .subscribing ∨ f.watch = .waiting) :
      Step feed f { f with watch := .ended }
  | next {f : StatusFeed ρ β} {signal : JobRemoved} {inbox : List JobRemoved}
      (hwatch : f.watch = .waiting) (hinbox : f.inbox = signal :: inbox) :
      Step feed f { f with
        watch := signal.unit.elim .waiting (.fetching · signal.time)
        inbox := inbox }
  | fetch {f : StatusFeed ρ β} {unit : String} {signalled : Nat} (failed : Bool)
      (hwatch : f.watch = .fetching unit signalled) :
      Step feed f { f with watch := .sending ⟨unit, signalled, f.history.length, failed⟩ }
  | send {f : StatusFeed ρ β} {r : Reading} (hwatch : f.watch = .sending r) :
      Step feed f { f with
        watch := .waiting
        relay := f.relay.publish (r.status f.history)
        readings := f.readings ++ [r] }
  | pump {f : StatusFeed ρ β} {s : Relay ρ UnitStatus β} (h : Relay.Step feed f.relay s)
      (hpub : s.published = f.relay.published) : Step feed f { f with relay := s }

/-- Any interleaving. -/
abbrev Run [DecidableEq ρ] (feed : Feed UnitStatus β) : StatusFeed ρ β → StatusFeed ρ β → Prop :=
  Relation.ReflTransGen (Step feed)

/-! ## What a receiver sees -/

section Received

variable [DecidableEq ρ] {feed : Feed UnitStatus β} {f f' : StatusFeed ρ β}

/-- The invariant: a status was sent for each signal that was seen, in their order; every state was
read after its signal and after the ones before it; and what is sent is what was read. -/
structure Inv (feed : Feed UnitStatus β) (f : StatusFeed ρ β) : Prop where
  relay : Relay.Run feed .new f.relay
  published : f.relay.published = f.readings.map (Reading.status f.history)
  signals : (f.readings.map fun r ↦ (r.unit, r.signalled)) ++ f.watch.inHand ++
    f.inbox.filterMap JobRemoved.named = f.signals.filterMap JobRemoved.named
  named : ∀ signal ∈ f.signals, signal.time ≤ f.history.length
  times : ∀ r ∈ f.readings ++ f.watch.unsent, r.signalled ≤ r.read ∧ r.read ≤ f.history.length
  sorted : (f.readings ++ f.watch.unsent).Pairwise fun r r' ↦ r.read ≤ r'.read

omit [DecidableEq ρ] in
/-- What was read at a moment of the history stays what it was. -/
theorem status_append {history : History} {r : Reading} (h : r.read ≤ history.length)
    (later : History) : r.status (history ++ later) = r.status history := by
  unfold Reading.status History.state
  rw [History.at_append h]

theorem Inv.new : Inv feed (new : StatusFeed ρ β) where
  relay := .refl
  published := rfl
  signals := rfl
  named := fun _ h ↦ absurd h List.not_mem_nil
  times := fun _ h ↦ absurd h List.not_mem_nil
  sorted := .nil

/-- The history goes on. -/
theorem Inv.change (h : Inv feed f) (change : String × Option String) :
    Inv feed { f with history := f.history ++ [change] } where
  relay := h.relay
  published := by
    refine h.published.trans (List.map_congr_left fun r hr ↦ ?_)
    exact (status_append (h.times r (List.mem_append_left _ hr)).2 _).symm
  signals := h.signals
  named := fun signal hsignal ↦ by
    rw [List.length_append]
    exact Nat.le_trans (h.named signal hsignal) (Nat.le_add_right _ _)
  times := fun r hr ↦ by
    rw [List.length_append]
    exact ⟨(h.times r hr).1, Nat.le_trans (h.times r hr).2 (Nat.le_add_right _ _)⟩
  sorted := h.sorted

/-- The signal that is in hand was sent before now. -/
theorem Inv.fetching_le (h : Inv feed f) {unit : String} {signalled : Nat}
    (hwatch : f.watch = .fetching unit signalled) : signalled ≤ f.history.length := by
  have hmem : (unit, signalled) ∈ f.signals.filterMap JobRemoved.named := by
    rw [← h.signals, hwatch]
    simp [WatchPhase.inHand]
  obtain ⟨signal, hsignal, hnamed⟩ := List.mem_filterMap.mp hmem
  obtain ⟨unit', -, heq⟩ := Option.map_eq_some_iff.mp hnamed
  obtain ⟨-, rfl⟩ := Prod.mk.inj heq
  exact h.named signal hsignal

/-- The watch moves on with the signals that it has. -/
theorem Inv.move (h : Inv feed f) {watch : WatchPhase} {inbox : List JobRemoved}
    (hsignals : watch.inHand ++ inbox.filterMap JobRemoved.named
      = f.watch.inHand ++ f.inbox.filterMap JobRemoved.named)
    (hunsent : watch.unsent = f.watch.unsent) : Inv feed { f with watch, inbox } where
  relay := h.relay
  published := h.published
  signals := by
    rw [List.append_assoc, hsignals, ← List.append_assoc]
    exact h.signals
  named := h.named
  times := by
    rw [hunsent]
    exact h.times
  sorted := by
    rw [hunsent]
    exact h.sorted

/-- **Every step keeps the invariant.** -/
theorem Step.inv (hstep : Step feed f f') (h : Inv feed f) : Inv feed f' := by
  cases hstep with
  | change unit state => exact h.change (unit, state)
  | signal unit hlistening =>
      refine ⟨h.relay, h.published, ?_, ?_, h.times, h.sorted⟩
      · dsimp only
        rw [List.filterMap_append, List.filterMap_append, ← List.append_assoc, h.signals]
      · intro signal hsignal
        rcases List.mem_append.mp hsignal with hsignal | hsignal
        · exact h.named signal hsignal
        · rw [List.mem_singleton.mp hsignal]
  | subscribe hwatch => exact h.move (by rw [hwatch]; rfl) (by rw [hwatch]; rfl)
  | hangUp hwatch =>
      rcases hwatch with hwatch | hwatch
      · exact h.move (by rw [hwatch]; rfl) (by rw [hwatch]; rfl)
      · exact h.move (by rw [hwatch]; rfl) (by rw [hwatch]; rfl)
  | @next signal inbox hwatch hinbox =>
      obtain ⟨unit, time⟩ := signal
      cases unit with
      | none => exact h.move (by rw [hwatch, hinbox]; rfl) (by rw [hwatch]; rfl)
      | some unit => exact h.move (by rw [hwatch, hinbox]; rfl) (by rw [hwatch]; rfl)
  | @fetch unit signalled failed hwatch =>
      have hle := h.fetching_le hwatch
      have hsignals := h.signals
      have htimes := h.times
      have hsorted := h.sorted
      rw [hwatch] at hsignals htimes hsorted
      rw [WatchPhase.unsent, List.append_nil] at htimes hsorted
      refine ⟨h.relay, h.published, hsignals, h.named, fun r hr ↦ ?_, ?_⟩
      · rcases List.mem_append.mp hr with hr | hr
        · exact htimes r hr
        · rw [List.mem_singleton.mp hr]
          exact ⟨hle, Nat.le_refl _⟩
      · refine List.pairwise_append.mpr ⟨hsorted, List.pairwise_singleton _ _, fun r hr r' hr' ↦ ?_⟩
        rw [List.mem_singleton.mp hr']
        exact (htimes r hr).2
  | @send r hwatch =>
      have hsignals := h.signals
      have htimes := h.times
      have hsorted := h.sorted
      rw [hwatch] at hsignals htimes hsorted
      rw [← List.append_nil (f.readings ++ _)] at htimes hsorted
      refine ⟨h.relay.tail (.publish _), ?_, ?_, h.named, htimes, hsorted⟩
      · show f.relay.published ++ [r.status f.history] = _
        rw [h.published, List.map_append, List.map_singleton]
      · rw [← hsignals, List.map_append]
        simp only [WatchPhase.inHand, List.map_singleton, List.append_nil, List.append_assoc]
  | pump hpump hpub =>
      exact ⟨h.relay.tail hpump, hpub.trans h.published, h.signals, h.named, h.times, h.sorted⟩

theorem Run.inv (hrun : Run feed new f) : Inv feed f := by
  induction hrun with
  | refl => exact .new
  | tail _ hstep ih => exact hstep.inv ih

omit [DecidableEq ρ] in
/-- A unit that has not changed since its job was removed is as it was read. -/
theorem status_of_unchanged {history : History} {r : Reading} (hfailed : r.failed = false)
    (hafter : r.signalled ≤ r.read) (hread : r.read ≤ history.length)
    (h : ∀ change ∈ history.drop r.signalled, change.1 ≠ r.unit) :
    (r.status history).activeState = history.state history.length r.unit := by
  show (if r.failed then _ else history.state r.read r.unit) = _
  rw [if_neg (by rw [hfailed]; exact Bool.false_ne_true)]
  unfold History.state
  rw [History.at_of_unchanged hafter h, History.at_of_unchanged (Nat.le_trans hafter hread) h]

/-- **What a receiver sees of the units.**  Whatever systemd, the watch, the pump and the receivers
do in between: for each `JobRemoved` signal that could be read one status was made, in the order of
the signals, all of them when the watch waits and has seen everything; each with the state that its
unit had at a moment after its signal, and these moments are in order; what a receiver of
`server.services.status` was given is some of these statuses, in the same order.  So a status whose
state was read is the state of its unit now, unless the unit has changed after its signal. -/
theorem status_events {n : Nat} {payload : UnitStatus → β}
    (hrun : Run (statusFeed n payload) new f) (k : ρ) :
    (f.readings.map fun r ↦ (r.unit, r.signalled)) <+: f.signals.filterMap JobRemoved.named ∧
      (f.watch = .waiting → f.inbox = [] →
        (f.readings.map fun r ↦ (r.unit, r.signalled)) = f.signals.filterMap JobRemoved.named) ∧
      (f.readings.Pairwise fun r r' ↦ r.read ≤ r'.read) ∧
      (∀ r ∈ f.readings, r.signalled ≤ r.read ∧ r.read ≤ f.history.length) ∧
      ∃ heard : List Reading, heard.Sublist f.readings ∧
        f.relay.received k = heard.map (fun r ↦ payload (r.status f.history)) ∧
        ∀ r ∈ heard, r.failed = false →
          (∀ change ∈ f.history.drop r.signalled, change.1 ≠ r.unit) →
          (r.status f.history).activeState = f.history.state f.history.length r.unit := by
  have h := hrun.inv
  have htimes : ∀ r ∈ f.readings, r.signalled ≤ r.read ∧ r.read ≤ f.history.length :=
    fun r hr ↦ h.times r (List.mem_append_left _ hr)
  refine ⟨⟨_, (List.append_assoc _ _ _).symm.trans h.signals⟩, fun hwatch hinbox ↦ ?_,
    (List.pairwise_append.mp h.sorted).1, htimes, ?_⟩
  · have hsignals := h.signals
    rw [hwatch, hinbox] at hsignals
    rwa [WatchPhase.inHand, List.filterMap_nil, List.append_nil, List.append_nil] at hsignals
  · have hreceived := Relay.received_sublist h.relay k
    rw [h.published, List.map_map] at hreceived
    obtain ⟨heard, hsub, heq⟩ := List.sublist_map_iff.mp hreceived
    refine ⟨heard, hsub, heq, fun r hr hfailed hunchanged ↦ ?_⟩
    obtain ⟨hafter, hread⟩ := htimes r (hsub.subset hr)
    exact status_of_unchanged hfailed hafter hread hunchanged

/-- A service is started while the watch asks for the state of one that was stopped. -/
theorem status_events_stopped : ∃ f : StatusFeed Unit UnitStatus,
    (f.relay.received ()).map (fun status ↦ (status.name, status.activeState)) =
      [("a.service", .inactive)] ∧
    ∃ heard : List Reading, heard.Sublist f.readings ∧
      f.relay.received () = heard.map (Reading.status f.history) := by
  have hsignal : Run (statusFeed 1 id) (new : StatusFeed Unit UnitStatus) _ :=
    (((((Relation.ReflTransGen.single (.subscribe rfl)).tail (.pump (.start rfl) rfl)).tail
      (.pump (.subscribe (k := ()) rfl) rfl)).tail (.change "a.service" (some "inactive"))).tail
      (.signal (some "a.service") trivial)).tail (.next rfl rfl)
  have hsent := ((hsignal.tail (.change "b.service" (some "active"))).tail (.fetch false rfl)).tail
    (.send rfl)
  have hheard := ((hsent.tail (.pump (.receive rfl) rfl)).tail
    (.pump (.send rfl (k := ()) (Option.some_ne_none _)) rfl)).tail
    (.pump (.hear (k := ()) rfl) rfl)
  obtain ⟨-, -, -, -, heard, hsub, heq, -⟩ := status_events hheard ()
  exact ⟨_, rfl, heard, hsub, heq⟩

end Received

end StatusFeed

end Vaiexia.Events
