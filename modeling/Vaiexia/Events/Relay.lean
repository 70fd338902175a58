import Vaiexia.Events.Pumps
import Vaiexia.Lib.Broadcast

/-!
# What a pump forwards

`status_pump::run`, `jobs_pump::run` and `logs_pump::run` have the same loop: they subscribe to the
channel of a source, and send what they receive on the channel of their topic.  The numbers of the
events are in `Pumps`; here it is about the payloads, with the two channels and the receivers of the
topic.  Only the pump subscribes to a source, so that what is sent while there is no future of the
pump is refused.

`received_sublist` says what holds in every run, and `pipeline_eq` when nothing is lost.
-/

namespace Vaiexia.Events

open Vaiexia.Lib

/-- A pump: the capacities of the channels of its source and of its topic, and the payload that it
makes of a value. -/
structure Feed (α β : Type) where
  capacity : Nat
  topicCapacity : Nat
  payload : α → β

/-- What there is of the future of a pump. -/
inductive RelayPhase (α β : Type) where
  | backoff
  | receiving (rcv : Receiver α)
  /-- It has built an event and not sent it yet. -/
  | built (rcv : Receiver α) (payload : β)

namespace RelayPhase

variable {α β : Type}

/-- The receiver that the future has. -/
def receiver? : RelayPhase α β → Option (Receiver α)
  | backoff => none
  | receiving rcv | built rcv _ => some rcv

/-- The payload that is not sent yet. -/
def inHand : RelayPhase α β → List β
  | built _ payload => [payload]
  | backoff | receiving _ => []

end RelayPhase

/-- One turn of the loop, up to the event. -/
def Feed.turn {α β : Type} (feed : Feed α β) : Recv α × Receiver α → RelayPhase α β
  | (.value a, rcv) => .built rcv (feed.payload a)
  | (.lagged _, rcv) | (.empty, rcv) => .receiving rcv

/-- The value that a receiver is given, if there is one. -/
def heardOf {α : Type} : Recv α → List α
  | .value a => [a]
  | .lagged _ | .empty => []

/-- The channel of the source, the pump, and the channel of the topic with its receivers; and what
was published, what was sent and what every receiver was given, which is not part of the program. -/
structure Relay (ρ α β : Type) where
  published : List α
  source : List α
  phase : RelayPhase α β
  sent : List β
  topic : List β
  listeners : ρ → Option (Receiver β)
  received : ρ → List β

namespace Relay

variable {ρ α β : Type}

/-- Before the factory was called. -/
def new : Relay ρ α β where
  published := []
  source := []
  phase := .backoff
  sent := []
  topic := []
  listeners := fun _ ↦ none
  received := fun _ ↦ []

/-- The source sends a value, which its channel refuses while nobody is subscribed. -/
def publish (a : α) (s : Relay ρ α β) : Relay ρ α β :=
  { s with
    published := s.published ++ [a]
    source := if s.phase.receiver?.isSome then s.source ++ [a] else s.source }

/-- One step of the source, of the pump and its supervisor, or of a receiver of the topic. -/
inductive Step [DecidableEq ρ] (feed : Feed α β) : Relay ρ α β → Relay ρ α β → Prop
  | publish {s : Relay ρ α β} (a : α) : Step feed s (s.publish a)
  | start {s : Relay ρ α β} (hp : s.phase = .backoff) :
      Step feed s { s with phase := .receiving (.subscribe s.source) }
  | receive {s : Relay ρ α β} {rcv : Receiver α} (hp : s.phase = .receiving rcv) :
      Step feed s { s with phase := feed.turn (rcv.recv feed.capacity s.source) }
  | send {s : Relay ρ α β} {rcv : Receiver α} {payload : β} (hp : s.phase = .built rcv payload)
      {k : ρ} (hk : s.listeners k ≠ none) :
      Step feed s { s with
        phase := .receiving rcv
        sent := s.sent ++ [payload]
        topic := s.topic ++ [payload] }
  /-- The channel of the topic refuses the event, and the pump does not look at that. -/
  | refused {s : Relay ρ α β} {rcv : Receiver α} {payload : β} (hp : s.phase = .built rcv payload)
      (hnone : ∀ k, s.listeners k = none) :
      Step feed s { s with
        phase := .receiving rcv
        sent := s.sent ++ [payload] }
  /-- The future returns or panics, and its receiver is dropped. -/
  | stop {s : Relay ρ α β} (hp : s.phase ≠ .backoff) : Step feed s { s with phase := .backoff }
  | subscribe {s : Relay ρ α β} {k : ρ} (hk : s.listeners k = none) :
      Step feed s { s with
        listeners := Function.update s.listeners k (some (.subscribe s.topic)) }
  | leave {s : Relay ρ α β} (k : ρ) :
      Step feed s { s with listeners := Function.update s.listeners k none }
  | hear {s : Relay ρ α β} {k : ρ} {rcv : Receiver β} (hk : s.listeners k = some rcv) :
      Step feed s { s with
        listeners :=
          Function.update s.listeners k (some (rcv.recv feed.topicCapacity s.topic).2)
        received := Function.update s.received k
          (s.received k ++ heardOf (rcv.recv feed.topicCapacity s.topic).1) }

/-- Any interleaving. -/
abbrev Run [DecidableEq ρ] (feed : Feed α β) : Relay ρ α β → Relay ρ α β → Prop :=
  Relation.ReflTransGen (Step feed)

/-- How far the pump has come in what the channel of the source had. -/
def position (s : Relay ρ α β) : Nat := (s.phase.receiver?.map Receiver.next).getD s.source.length

/-! ## The order -/

/-- The invariant. -/
structure Inv (feed : Feed α β) (s : Relay ρ α β) : Prop where
  source : s.source.Sublist s.published
  receiver : ∀ rcv, s.phase.receiver? = some rcv → rcv.Inv s.source
  sent : (s.sent ++ s.phase.inHand).Sublist ((s.source.take s.position).map feed.payload)
  topic : s.topic.Sublist s.sent
  listener : ∀ k rcv, s.listeners k = some rcv → rcv.Inv s.topic ∧
    (s.received k).Sublist (s.topic.take rcv.next)
  received : ∀ k, (s.received k).Sublist s.topic

section Order

variable {feed : Feed α β} {s s' : Relay ρ α β}

theorem Inv.new : Inv feed (new : Relay ρ α β) where
  source := .slnil
  receiver := by rintro rcv ⟨⟩
  sent := .slnil
  topic := .slnil
  listener := by rintro k rcv ⟨⟩
  received := fun _ ↦ .slnil

theorem Inv.position_le (h : Inv feed s) : s.position ≤ s.source.length := by
  unfold position
  cases hp : s.phase.receiver? with
  | none => exact Nat.le_refl _
  | some rcv => exact (h.receiver rcv hp).next_le

/-- What is published does not change what was sent. -/
theorem Inv.publish (h : Inv feed s) (a : α) : Inv feed (s.publish a) := by
  unfold Relay.publish
  by_cases hsome : s.phase.receiver?.isSome = true
  · rw [if_pos hsome]
    obtain ⟨rcv, hrcv⟩ := Option.isSome_iff_exists.mp hsome
    refine ⟨h.source.append (.refl [a]), fun rcv' hrcv' ↦ (h.receiver rcv' hrcv').append [a], ?_,
      h.topic, h.listener, h.received⟩
    have hnext : rcv.next ≤ s.source.length := (h.receiver rcv hrcv).next_le
    have hsent := h.sent
    unfold position at hsent ⊢
    simp only [hrcv, Option.map_some, Option.getD_some] at hsent ⊢
    rw [List.take_append_of_le_length hnext]
    exact hsent
  · rw [if_neg hsome]
    exact ⟨h.source.trans (List.sublist_append_left _ _), h.receiver, h.sent, h.topic, h.listener,
      h.received⟩

/-- A turn of the loop leaves what was sent, and what is sent next comes after it. -/
theorem Inv.receive (h : Inv feed s) {rcv : Receiver α} (hp : s.phase = .receiving rcv) :
    Inv feed { s with phase := feed.turn (rcv.recv feed.capacity s.source) } := by
  have hinv := h.receiver rcv (by rw [hp]; rfl)
  have hsent := h.sent
  simp only [position, hp, RelayPhase.receiver?, RelayPhase.inHand, Option.map_some,
    Option.getD_some, List.append_nil] at hsent
  rcases rcv.recv_cases feed.capacity s.source with ⟨a, hget, -, heq⟩ | ⟨-, heq⟩ | ⟨hlag, heq⟩
  · rw [heq]
    refine ⟨h.source, ?_, ?_, h.topic, h.listener, h.received⟩
    · rintro rcv' ⟨⟩
      exact hinv.hear hget
    · show (s.sent ++ [feed.payload a]).Sublist ((s.source.take (rcv.hear a).next).map feed.payload)
      rw [Receiver.take_hear hget, List.map_append, List.map_singleton]
      exact hsent.append (.refl _)
  · rw [heq]
    refine ⟨h.source, ?_, ?_, h.topic, h.listener, h.received⟩
    · rintro rcv' ⟨⟩
      exact hinv
    · show (s.sent ++ []).Sublist ((s.source.take rcv.next).map feed.payload)
      rw [List.append_nil]
      exact hsent
  · rw [heq]
    refine ⟨h.source, ?_, ?_, h.topic, h.listener, h.received⟩
    · rintro rcv' ⟨⟩
      exact hinv.skip hlag
    · show (s.sent ++ []).Sublist
        ((s.source.take (s.source.length - feed.capacity)).map feed.payload)
      rw [List.append_nil]
      exact hsent.trans ((List.take_sublist_take_left (by omega)).map _)

/-- An event that is sent was in hand. -/
theorem Inv.send (h : Inv feed s) {rcv : Receiver α} {payload : β}
    (hp : s.phase = .built rcv payload) {topic : List β}
    (htopic : topic = s.topic ∨ topic = s.topic ++ [payload]) :
    Inv feed { s with phase := .receiving rcv, sent := s.sent ++ [payload], topic } := by
  have hgrow : s.topic <+: topic := by
    rcases htopic with rfl | rfl
    · exact List.prefix_rfl
    · exact List.prefix_append _ _
  obtain ⟨more, rfl⟩ := hgrow
  refine ⟨h.source, ?_, ?_, ?_, ?_, fun k ↦ (h.received k).trans (List.sublist_append_left _ _)⟩
  · rintro rcv' ⟨⟩
    exact h.receiver rcv (by rw [hp]; rfl)
  · have hsent := h.sent
    simp only [position, hp, RelayPhase.receiver?, RelayPhase.inHand, Option.map_some,
      Option.getD_some] at hsent
    show ((s.sent ++ [payload]) ++ []).Sublist ((s.source.take rcv.next).map feed.payload)
    rw [List.append_nil]
    exact hsent
  · rcases htopic with heq | heq
    · rw [heq]
      exact h.topic.trans (List.sublist_append_left _ _)
    · rw [heq]
      exact h.topic.append (.refl _)
  · intro k rcv' hk
    obtain ⟨hinv, hheard⟩ := h.listener k rcv' hk
    refine ⟨hinv.append more, ?_⟩
    rw [List.take_append_of_le_length hinv.next_le]
    exact hheard

variable [DecidableEq ρ]

/-- A receiver of the topic is given what comes after all that it was given before. -/
theorem Inv.hear (h : Inv feed s) {k : ρ} {rcv : Receiver β} (hk : s.listeners k = some rcv) :
    Inv feed { s with
      listeners := Function.update s.listeners k (some (rcv.recv feed.topicCapacity s.topic).2)
      received := Function.update s.received k
        (s.received k ++ heardOf (rcv.recv feed.topicCapacity s.topic).1) } := by
  obtain ⟨hinv, hheard⟩ := h.listener k rcv hk
  have hnew : (s.received k ++ heardOf (rcv.recv feed.topicCapacity s.topic).1).Sublist
      (s.topic.take (rcv.recv feed.topicCapacity s.topic).2.next) := by
    rcases rcv.recv_cases feed.topicCapacity s.topic with
      ⟨a, hget, -, heq⟩ | ⟨-, heq⟩ | ⟨hlag, heq⟩
    · rw [heq]
      show (s.received k ++ [a]).Sublist (s.topic.take (rcv.hear a).next)
      rw [Receiver.take_hear hget]
      exact hheard.append (.refl _)
    · rw [heq]
      show (s.received k ++ []).Sublist (s.topic.take rcv.next)
      rw [List.append_nil]
      exact hheard
    · rw [heq]
      show (s.received k ++ []).Sublist (s.topic.take (s.topic.length - feed.topicCapacity))
      rw [List.append_nil]
      exact hheard.trans (List.take_sublist_take_left (by omega))
  refine ⟨h.source, h.receiver, h.sent, h.topic, ?_, ?_⟩
  · intro k' rcv' hk'
    by_cases hne : k' = k
    · subst hne
      simp only [Function.update_self, Option.some.injEq] at hk' ⊢
      subst hk'
      exact ⟨hinv.recv feed.topicCapacity, hnew⟩
    · simp only [Function.update_of_ne hne] at hk' ⊢
      exact h.listener k' rcv' hk'
  · intro k'
    by_cases hne : k' = k
    · subst hne
      simp only [Function.update_self]
      exact hnew.trans (List.take_sublist _ _)
    · simp only [Function.update_of_ne hne]
      exact h.received k'

/-- Every step keeps the invariant. -/
theorem Step.inv (hstep : Step feed s s') (h : Inv feed s) : Inv feed s' := by
  cases hstep with
  | publish a => exact h.publish a
  | start hp =>
      refine ⟨h.source, ?_, ?_, h.topic, h.listener, h.received⟩
      · rintro rcv ⟨⟩
        exact .subscribe s.source
      · have hsent := h.sent
        simp only [position, hp, RelayPhase.receiver?, RelayPhase.inHand, Option.map_none,
          Option.getD_none] at hsent
        exact hsent
  | receive hp => exact h.receive hp
  | send hp _ => exact h.send hp (.inr rfl)
  | refused hp _ => exact h.send hp (.inl rfl)
  | stop hp =>
      refine ⟨h.source, ?_, ?_, h.topic, h.listener, h.received⟩
      · rintro rcv ⟨⟩
      · show (s.sent ++ []).Sublist ((s.source.take s.source.length).map feed.payload)
        rw [List.append_nil]
        refine (List.sublist_append_left _ s.phase.inHand).trans (h.sent.trans ?_)
        exact (List.take_sublist_take_left h.position_le).map _
  | @subscribe k hk =>
      refine ⟨h.source, h.receiver, h.sent, h.topic, ?_, h.received⟩
      intro k' rcv' hk'
      by_cases hne : k' = k
      · subst hne
        simp only [Function.update_self, Option.some.injEq] at hk'
        subst hk'
        refine ⟨.subscribe s.topic, ?_⟩
        show (s.received k').Sublist (s.topic.take s.topic.length)
        rw [List.take_length]
        exact h.received k'
      · simp only [Function.update_of_ne hne] at hk'
        exact h.listener k' rcv' hk'
  | leave k =>
      refine ⟨h.source, h.receiver, h.sent, h.topic, ?_, h.received⟩
      intro k' rcv' hk'
      by_cases hne : k' = k
      · subst hne
        simp only [Function.update_self] at hk'
        cases hk'
      · simp only [Function.update_of_ne hne] at hk'
        exact h.listener k' rcv' hk'
  | hear hk => exact h.hear hk

theorem Run.inv (hrun : Run feed new s) : Inv feed s := by
  induction hrun with
  | refl => exact .new
  | tail _ hstep ih => exact hstep.inv ih

/-- **In order, and once.**  In every run, with any number of futures of the pump, of values that a
receiver has missed and of receivers that come and go: what a receiver of the topic was given is
some of what the source has sent, in the order in which it was sent. -/
theorem received_sublist (hrun : Run feed new s) (k : ρ) :
    (s.received k).Sublist (s.published.map feed.payload) := by
  have h := hrun.inv
  have hsent : s.sent.Sublist (s.source.map feed.payload) :=
    ((List.sublist_append_left _ _).trans h.sent).trans ((List.take_sublist _ _).map _)
  exact (((h.received k).trans h.topic).trans hsent).trans (h.source.map _)

end Order

/-! ## Nothing is lost -/

/-- The pump is there and its channel has all that it has not received yet; and so it is with a
receiver of the topic. -/
structure Keeps (feed : Feed α β) (k : ρ) (s : Relay ρ α β) : Prop where
  pump : ∃ rcv, s.phase.receiver? = some rcv ∧ rcv.KeepsUp feed.capacity s.source
  listener : ∃ rcv, s.listeners k = some rcv ∧ rcv.KeepsUp feed.topicCapacity s.topic

/-- What a receiver of the topic was given, what its channel has for it, what the pump has in hand
and what the channel of the source has for the pump. -/
def pipeline (feed : Feed α β) (k : ρ) (s : Relay ρ α β) : List β :=
  s.received k ++ ((s.listeners k).elim [] fun rcv ↦ s.topic.drop rcv.next) ++ s.phase.inHand ++
    (s.source.drop s.position).map feed.payload

/-- A run in which the pump and the receiver keep up. -/
abbrev KeptRun [DecidableEq ρ] (feed : Feed α β) (k : ρ) : Relay ρ α β → Relay ρ α β → Prop :=
  Relation.ReflTransGen fun s s' ↦ Step feed s s' ∧ Keeps feed k s'

section Lossless

variable [DecidableEq ρ] {feed : Feed α β} {k : ρ} {s s' : Relay ρ α β}

omit [DecidableEq ρ] in
theorem pipeline_publish (h : Inv feed s) (hkeeps : Keeps feed k s) (a : α) :
    (s.publish a).pipeline feed k = s.pipeline feed k ++ [feed.payload a] := by
  obtain ⟨rcv, hrcv, -⟩ := hkeeps.pump
  have hnext : rcv.next ≤ s.source.length := (h.receiver rcv hrcv).next_le
  simp only [pipeline, publish, position, hrcv, Option.isSome_some, if_true, Option.map_some,
    Option.getD_some, List.drop_append_of_le_length hnext, List.map_append, List.map_singleton,
    List.append_assoc]

omit [DecidableEq ρ] in
/-- The pump takes the next value in hand. -/
theorem pipeline_receive (hkeeps : Keeps feed k s) {rcv : Receiver α}
    (hp : s.phase = .receiving rcv) :
    pipeline feed k { s with phase := feed.turn (rcv.recv feed.capacity s.source) }
      = s.pipeline feed k := by
  obtain ⟨rcv', hrcv, hup⟩ := hkeeps.pump
  rw [hp] at hrcv
  obtain rfl : rcv = rcv' := Option.some.inj hrcv
  unfold Receiver.KeepsUp at hup
  rcases rcv.recv_cases feed.capacity s.source with ⟨a, hget, -, heq⟩ | ⟨-, heq⟩ | ⟨hlag, -⟩
  · simp only [pipeline, position, hp, heq, Feed.turn, RelayPhase.receiver?, RelayPhase.inHand,
      Option.map_some, Option.getD_some, List.append_nil, List.append_assoc]
    rw [Receiver.drop_eq_cons hget, List.map_cons, List.singleton_append]
  · simp only [pipeline, position, hp, heq, Feed.turn, RelayPhase.receiver?, RelayPhase.inHand,
      Option.map_some, Option.getD_some]
  · omega

omit [DecidableEq ρ] in
/-- What was in hand comes to the end of what the channel has for the receiver. -/
theorem pipeline_send (h : Inv feed s) (hkeeps : Keeps feed k s) {rcv : Receiver α} {payload : β}
    (hp : s.phase = .built rcv payload) :
    pipeline feed k { s with
      phase := .receiving rcv
      sent := s.sent ++ [payload]
      topic := s.topic ++ [payload] } = s.pipeline feed k := by
  obtain ⟨rcv', hlistener, -⟩ := hkeeps.listener
  have hnext : rcv'.next ≤ s.topic.length := (h.listener k rcv' hlistener).1.next_le
  simp only [pipeline, position, hp, hlistener, RelayPhase.receiver?, RelayPhase.inHand,
    Option.map_some, Option.getD_some, Option.elim_some, List.drop_append_of_le_length hnext,
    List.append_assoc, List.nil_append]

/-- The receiver is given the next value that its channel has for it. -/
theorem pipeline_hear (hkeeps : Keeps feed k s) {k' : ρ} {rcv : Receiver β}
    (hk : s.listeners k' = some rcv) :
    pipeline feed k { s with
      listeners := Function.update s.listeners k' (some (rcv.recv feed.topicCapacity s.topic).2)
      received := Function.update s.received k'
        (s.received k' ++ heardOf (rcv.recv feed.topicCapacity s.topic).1) }
      = s.pipeline feed k := by
  by_cases hne : k = k'
  · subst hne
    obtain ⟨rcv', hlistener, hup⟩ := hkeeps.listener
    obtain rfl : rcv = rcv' := Option.some.inj (hk.symm.trans hlistener)
    unfold Receiver.KeepsUp at hup
    rcases rcv.recv_cases feed.topicCapacity s.topic with
      ⟨a, hget, -, heq⟩ | ⟨-, heq⟩ | ⟨hlag, -⟩
    · simp only [pipeline, position, hk, heq, heardOf, Function.update_self, Option.elim_some,
        List.append_assoc]
      rw [Receiver.drop_eq_cons hget]
      simp only [List.cons_append, List.nil_append]
    · simp only [pipeline, position, hk, heq, heardOf, Function.update_self, Option.elim_some,
        List.append_nil]
    · omega
  · simp only [pipeline, position, Function.update_of_ne hne]

/-- A step of a run in which the pump and the receiver keep up adds what is published at the end. -/
theorem Step.pipeline (hstep : Step feed s s') (h : Inv feed s) (hkeeps : Keeps feed k s)
    (hkeeps' : Keeps feed k s') : ∃ more, s'.published = s.published ++ more ∧
      s'.pipeline feed k = s.pipeline feed k ++ more.map feed.payload := by
  have hsame : ∀ {t : Relay ρ α β}, t.published = s.published →
      t.pipeline feed k = s.pipeline feed k → ∃ more, t.published = s.published ++ more ∧
        t.pipeline feed k = s.pipeline feed k ++ more.map feed.payload := fun hpub hpipe ↦
    ⟨[], by rw [hpub, List.append_nil], by rw [hpipe, List.map_nil, List.append_nil]⟩
  cases hstep with
  | publish a => exact ⟨[a], rfl, pipeline_publish h hkeeps a⟩
  | start hp =>
      obtain ⟨rcv, hrcv, -⟩ := hkeeps.pump
      rw [hp] at hrcv
      cases hrcv
  | receive hp => exact hsame rfl (pipeline_receive hkeeps hp)
  | send hp hk => exact hsame rfl (pipeline_send h hkeeps hp)
  | refused hp hnone =>
      obtain ⟨rcv, hlistener, -⟩ := hkeeps.listener
      rw [hnone k] at hlistener
      cases hlistener
  | stop hp =>
      obtain ⟨rcv, hrcv, -⟩ := hkeeps'.pump
      cases hrcv
  | @subscribe k' hk =>
      refine hsame rfl ?_
      have hne : k ≠ k' := by
        rintro rfl
        obtain ⟨rcv, hlistener, -⟩ := hkeeps.listener
        rw [hk] at hlistener
        cases hlistener
      simp only [Relay.pipeline, position, Function.update_of_ne hne]
  | leave k' =>
      refine hsame rfl ?_
      have hne : k ≠ k' := by
        rintro rfl
        obtain ⟨rcv, hlistener, -⟩ := hkeeps'.listener
        simp only [Function.update_self] at hlistener
        cases hlistener
      simp only [Relay.pipeline, position, Function.update_of_ne hne]
  | hear hk => exact hsame rfl (pipeline_hear hkeeps hk)

/-- **Nothing is lost while both keep up.**  From any state that can be reached, as long as the pump
runs and neither the channel of the source nor that of the topic is overrun, the two channels and
the pump are one queue: what the receiver was given, and is still to be given, is what it was before
with all that was published since, in order and once. -/
theorem pipeline_eq (hreach : Run feed new s) (hkeeps : Keeps feed k s)
    (hrun : KeptRun feed k s s') : ∃ since, s'.published = s.published ++ since ∧
      s'.pipeline feed k = s.pipeline feed k ++ since.map feed.payload := by
  suffices hall : Run feed new s' ∧ Keeps feed k s' ∧ ∃ since,
      s'.published = s.published ++ since ∧
        s'.pipeline feed k = s.pipeline feed k ++ since.map feed.payload from hall.2.2
  induction hrun with
  | refl => exact ⟨hreach, hkeeps, [], by simp, by simp⟩
  | tail _ hmove ih =>
      obtain ⟨hstep, hkept⟩ := hmove
      obtain ⟨hmid, hkeepsMid, since, hpub, hpipe⟩ := ih
      obtain ⟨more, hpub', hpipe'⟩ := hstep.pipeline hmid.inv hkeepsMid hkept
      refine ⟨hmid.tail hstep, hkept, since ++ more, ?_, ?_⟩
      · rw [hpub', hpub, List.append_assoc]
      · rw [hpipe', hpipe, List.map_append, List.append_assoc]

/-- The pump has begun to receive, and somebody to listen. -/
def listening : Relay Unit String String :=
  { (new : Relay Unit String String) with
    phase := .receiving (.subscribe [])
    listeners := Function.update (fun _ ↦ none) () (some (.subscribe [])) }

/-- Of three values one has gone through both channels, one is in the hand of the pump, and one is
still in the channel of the source. -/
theorem pipeline_eq_three : ∃ s s' : Relay Unit String String,
    s'.published = ["up", "down", "failed"] ∧ s'.received () = ["up"] ∧
      s'.phase.inHand = ["down"] ∧
      ∃ since, s'.published = s.published ++ since ∧
        s'.pipeline ⟨64, 64, id⟩ () = s.pipeline ⟨64, 64, id⟩ () ++ since.map id := by
  have hreach : Run ⟨64, 64, id⟩ new listening :=
    (Relation.ReflTransGen.single (.start rfl)).tail (.subscribe (k := ()) rfl)
  have hle : ∀ {a b : Nat}, a.ble b = true → a ≤ b := Nat.le_of_ble_eq_true
  have hrun : KeptRun ⟨64, 64, id⟩ () listening _ :=
    ((((((Relation.ReflTransGen.single
      ⟨.publish "up", ⟨_, rfl, hle rfl⟩, ⟨_, rfl, hle rfl⟩⟩).tail
      ⟨.publish "down", ⟨_, rfl, hle rfl⟩, ⟨_, rfl, hle rfl⟩⟩).tail
      ⟨.receive rfl, ⟨_, rfl, hle rfl⟩, ⟨_, rfl, hle rfl⟩⟩).tail
      ⟨.send rfl (k := ()) (Option.some_ne_none _), ⟨_, rfl, hle rfl⟩, ⟨_, rfl, hle rfl⟩⟩).tail
      ⟨.hear (k := ()) rfl, ⟨_, rfl, hle rfl⟩, ⟨_, rfl, hle rfl⟩⟩).tail
      ⟨.publish "failed", ⟨_, rfl, hle rfl⟩, ⟨_, rfl, hle rfl⟩⟩).tail
      ⟨.receive rfl, ⟨_, rfl, hle rfl⟩, ⟨_, rfl, hle rfl⟩⟩
  exact ⟨_, _, rfl, rfl, rfl, pipeline_eq hreach ⟨⟨_, rfl, hle rfl⟩, ⟨_, rfl, hle rfl⟩⟩ hrun⟩

end Lossless

/-! ## The numbers -/

/-- What there is of the future of a pump, with and without the number of the event. -/
inductive SamePhase : RelayPhase α β → PumpPhase → Prop
  | backoff : SamePhase .backoff .backoff
  | receiving (rcv : Receiver α) : SamePhase (.receiving rcv) .receiving
  | built (rcv : Receiver α) (payload : β) (seq : UInt64) :
      SamePhase (.built rcv payload) (.built seq)

/-- The pump has come as far as one of `Pumps`, which has sent as many events. -/
structure Numbered (p : Pump) (s : Relay ρ α β) (t : Pumps) : Prop where
  phase : SamePhase s.phase (t.phase p)
  sent : t.sent.length = s.sent.length

/-- A step is one of the pump in `Pumps`, or it is not about the pump. -/
theorem Numbered.step [DecidableEq ρ] {feed : Feed α β} {p : Pump} {s s' : Relay ρ α β} {t : Pumps}
    (hstep : Step feed s s') (h : Numbered p s t) :
    ∃ t', Relation.ReflGen (Pumps.Step p) t t' ∧ Numbered p s' t' := by
  have hphase := h.phase
  cases hstep with
  | publish a => exact ⟨t, .refl, h.phase, h.sent⟩
  | subscribe hk => exact ⟨t, .refl, h.phase, h.sent⟩
  | leave k => exact ⟨t, .refl, h.phase, h.sent⟩
  | hear hk => exact ⟨t, .refl, h.phase, h.sent⟩
  | start hp =>
      rw [hp] at hphase
      cases hback : t.phase p with
      | backoff =>
          refine ⟨_, .single (.start hback), ?_, ?_⟩
          · dsimp only
            rw [Function.update_self]
            exact .receiving _
          · dsimp only
            rw [Pumps.sent_renew]
            exact h.sent
      | receiving | built seq =>
          rw [hback] at hphase
          cases hphase
  | @receive rcv hp =>
      rw [hp] at hphase
      cases hreceiving : t.phase p with
      | receiving =>
          rcases rcv.recv_cases feed.capacity s.source with ⟨a, -, -, heq⟩ | ⟨-, heq⟩ | ⟨-, heq⟩
          · rw [heq]
            refine ⟨_, .single (.build hreceiving), ?_, ?_⟩
            · dsimp only
              rw [Function.update_self]
              exact .built _ _ _
            · dsimp only
              rw [Pumps.sent_next]
              exact h.sent
          · rw [heq]
            exact ⟨t, .refl, by rw [hreceiving]; exact .receiving _, h.sent⟩
          · rw [heq]
            exact ⟨t, .refl, by rw [hreceiving]; exact .receiving _, h.sent⟩
      | backoff | built seq =>
          rw [hreceiving] at hphase
          cases hphase
  | send hp _ | refused hp _ =>
      rw [hp] at hphase
      cases hbuilt : t.phase p with
      | built seq =>
          refine ⟨_, .single (.send hbuilt), ?_, ?_⟩
          · dsimp only
            rw [Function.update_self]
            exact .receiving _
          · dsimp only
            rw [List.length_append, List.length_append, h.sent]
            rfl
      | backoff | receiving =>
          rw [hbuilt] at hphase
          cases hphase
  | stop hp =>
      refine ⟨_, .single (.stop (s := t) ?_), ?_, h.sent⟩
      · intro hback
        rw [hback] at hphase
        cases hs : s.phase with
        | backoff => exact hp hs
        | receiving rcv | built rcv payload =>
            rw [hs] at hphase
            cases hphase
      · dsimp only
        rw [Function.update_self]
        exact .backoff

/-- The events of a run can be numbered as `Pumps` does it. -/
theorem exists_pumps [DecidableEq ρ] {feed : Feed α β} {s : Relay ρ α β} (hrun : Run feed new s)
    (p : Pump) : ∃ t, Pumps.Run .new t ∧ Numbered p s t := by
  induction hrun with
  | refl => exact ⟨.new, .refl, .backoff, rfl⟩
  | tail _ hstep ih =>
      obtain ⟨t, hreach, hnumbered⟩ := ih
      obtain ⟨t', hmove, hnumbered'⟩ := hnumbered.step hstep
      refine ⟨t', ?_, hnumbered'⟩
      cases hmove with
      | refl => exact hreach
      | single hpump => exact hreach.tail ⟨p, hpump⟩

end Relay

end Vaiexia.Events
