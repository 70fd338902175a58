import Vaiexia.Auth.Verifier

/-!
# What the verifier records

`verify` and `verify_topic` emit an event at each of their exits.  An event names the decision that
the caller is told, and the key id that the presented token shows, if any: `Recorded`.
-/

namespace Vaiexia.Auth

open Vaiexia.Lib Vaiexia.Audit

/-! ## Key ids in events -/

/-- Whether a character is a control character does not come up in a key id. -/
theorem Token.isControl_of_isKeyIdChar {c : Char} (h : Token.isKeyIdChar c = true) :
    isControl c = false := by
  have hlow : '2'.toNat ≤ c.toNat ∧ c.toNat ≤ 'z'.toNat := by
    rw [Token.isKeyIdChar, Bool.or_eq_true, Bool.and_eq_true, Bool.and_eq_true] at h
    rcases h with ⟨hle, hge⟩ | ⟨hle, hge⟩
    · have hle' : 'a'.toNat ≤ c.toNat := of_decide_eq_true hle
      exact ⟨le_trans (by decide) hle', of_decide_eq_true hge⟩
    · have hge' : c.toNat ≤ '7'.toNat := of_decide_eq_true hge
      exact ⟨of_decide_eq_true hle, le_trans hge' (by decide)⟩
  have htwo : '2'.toNat = 0x32 := by decide
  have hz : 'z'.toNat = 0x7A := by decide
  rw [isControl, Bool.or_eq_false_iff, Bool.and_eq_false_iff, decide_eq_false_iff_not,
    decide_eq_false_iff_not]
  omega

/-- A key id needs no cleaning. -/
theorem sanitize_keyId {keyId : String} (h : Token.isKeyId keyId.toList = true) :
    (sanitize keyId).text = keyId := by
  obtain ⟨hlen, hall⟩ := Token.isKeyId_iff.mp h
  apply sanitize_text
  · rw [hlen]
    decide
  · refine List.all_eq_true.mpr fun c hc ↦ ?_
    rw [Token.isControl_of_isKeyIdChar (hall c hc)]
    rfl

/-- The key id of the event, when there is one, is that which the token presents. -/
def NamesToken (cap : Option String) (ev : AuditEvent) : Prop :=
  ∀ f, ev.capKeyId = some f → ∃ token, cap = some token ∧ Token.Presents token f.text

/-- What `withTokenKeyId` does to an event that names no key. -/
theorem withTokenKeyId_spec (cap : Option String) {ev : AuditEvent} (h : ev.capKeyId = none) :
    (withTokenKeyId cap ev).kind = ev.kind ∧ (withTokenKeyId cap ev).decision = ev.decision ∧
      NamesToken cap (withTokenKeyId cap ev) := by
  unfold withTokenKeyId
  split
  · rename_i keyId hkey
    obtain ⟨token, rfl, hpresents⟩ := Option.bind_eq_some_iff.mp hkey
    rw [Token.parseKeyId_eq_some_iff] at hpresents
    refine ⟨rfl, rfl, fun f hf ↦ ⟨token, rfl, ?_⟩⟩
    rw [← Option.some.inj hf, sanitize_keyId hpresents.1]
    exact hpresents
  · refine ⟨rfl, rfl, fun f hf ↦ ?_⟩
    rw [h] at hf
    cases hf

/-! ## One event for a decision -/

/-- The decision that a result is an instance of. -/
def decisionOf {ε α : Type} : Except ε α → AuditDecision
  | .ok _ => .allow
  | .error _ => .deny

/-- The events of a call that decides are one event, of this kind, which tells the decision. -/
def Recorded {α : Type} (kind : AuditKind) (cap : Option String) (events : List AuditEvent)
    (result : Except Diagnostic α) : Prop :=
  ∃ ev, events = [ev] ∧ ev.kind = kind ∧ ev.decision = decisionOf result ∧ NamesToken cap ev

section Recorded

variable (X : TokenCrypto) (core : ScopeSets) (clock : Clock) (cap : Option String) (st : FileStore)

theorem verifyAuthenticated_recorded (method : String) :
    Recorded .authDecision cap (verifyAuthenticated X core clock cap method st).2.1
      (verifyAuthenticated X core clock cap method st).2.2 := by
  unfold verifyAuthenticated
  split
  · exact ⟨_, rfl, withTokenKeyId_spec cap rfl⟩
  · exact ⟨_, rfl, withTokenKeyId_spec cap rfl⟩

theorem verifyTopic_recorded (topic : String) :
    Recorded .topicDecision cap (verifyTopic X core clock cap topic st).2.1
      (verifyTopic X core clock cap topic st).2.2 := by
  unfold verifyTopic
  split
  · exact ⟨_, rfl, withTokenKeyId_spec cap rfl⟩
  · -- behind the authentication the events name no key
    split
    · exact ⟨_, rfl, rfl, rfl, fun f hf ↦ nomatch hf⟩
    · dsimp only
      split
      · exact ⟨_, rfl, rfl, rfl, fun f hf ↦ nomatch hf⟩
      · exact ⟨_, rfl, rfl, rfl, fun f hf ↦ nomatch hf⟩

/-- **The verifier's trail is exact.**  Every call that decides emits one event, of its kind, with
the decision that it returns and no key id but that of the presented token; `verify` emits none for
a method that is open to everybody. -/
theorem verifier_trail :
    (∀ method, methodRequirement method ≠ some .anonymous →
      Recorded .authDecision cap (verify X core clock cap method st).2.1
        (verify X core clock cap method st).2.2) ∧
    (∀ method, methodRequirement method = some .anonymous →
      (verify X core clock cap method st).2.1 = []) ∧
    ∀ topic, Recorded .topicDecision cap (verifyTopic X core clock cap topic st).2.1
      (verifyTopic X core clock cap topic st).2.2 := by
  refine ⟨fun method hmethod ↦ ?_, fun method hmethod ↦ ?_,
    verifyTopic_recorded X core clock cap st⟩
  · have hauth := verifyAuthenticated_recorded X core clock cap st method
    unfold verify
    split
    · exact hauth
    · rename_i hanonymous
      exact absurd hanonymous hmethod
    · exact hauth
    · exact hauth
  · rw [verify, hmethod]

end Recorded

/-- The caller who presents a token that the store does not know, at a method and at one that is
open to everybody. -/
theorem verifier_trail_zeroToken :
    Recorded .authDecision (some Token.zeroToken.capability)
      (verify Token.sampleCrypto .lists ⟨5, 5, 5⟩ (some Token.zeroToken.capability) "auth.whoami"
        ⟨none, .default, ∅⟩).2.1
      (verify Token.sampleCrypto .lists ⟨5, 5, 5⟩ (some Token.zeroToken.capability) "auth.whoami"
        ⟨none, .default, ∅⟩).2.2 ∧
    (verify Token.sampleCrypto .lists ⟨5, 5, 5⟩ (some Token.zeroToken.capability) "auth.login"
      ⟨none, .default, ∅⟩).2.1 = [] :=
  ⟨(verifier_trail _ _ _ _ _).1 "auth.whoami" (by decide),
    (verifier_trail _ _ _ _ _).2.1 "auth.login" (by decide)⟩

end Vaiexia.Auth
