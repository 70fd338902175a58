import Vaiexia.Audit.Writer

/-!
# How long an audited text can get

The builders of an event cut every text they are given after `maxFieldLen` characters, where the
documents of the repository promise as many bytes.  A text of characters outside ASCII is stored
with up to four times as many.
-/

namespace Vaiexia.Audit

open Vaiexia.Lib Utf8

/-! ## Calls of the builders -/

/-- A call of one of the setters. -/
inductive BuilderCall where
  | severity (s : Severity)
  | capKeyId (k : String)
  | peer (p : String)
  | transport (t : Transport)
  | method (m : String)
  | topic (t : String)
  | requestId (r : String)
  | reason (code : Reason)
  | detail (d : String)
  | latencyUs (us : UInt64)

namespace BuilderCall

def apply (e : AuditEvent) : BuilderCall → AuditEvent
  | .severity s => e.withSeverity s
  | .capKeyId k => e.withCapKeyId k
  | .peer p => e.withPeer p
  | .transport t => e.withTransport t
  | .method m => e.withMethod m
  | .topic t => e.withTopic t
  | .requestId r => e.withRequestId r
  | .reason code => e.withReason code
  | .detail d => e.withDetail d
  | .latencyUs us => e.withLatencyUs us

/-- The string that the call passes. -/
def passed : BuilderCall → Option String
  | .capKeyId s | .peer s | .method s | .topic s | .requestId s | .detail s => some s
  | .severity _ | .transport _ | .reason _ | .latencyUs _ => none

end BuilderCall

/-- What `AuditEvent::new` is given. -/
structure Subject where
  now : UInt64
  kind : AuditKind
  decision : AuditDecision
  subject : String

/-- The event after these calls. -/
def build (new : Subject) (calls : List BuilderCall) : AuditEvent :=
  calls.foldl BuilderCall.apply (.new new.now new.kind new.decision new.subject)

/-- The strings passed to `new` and to the setters. -/
def passed (new : Subject) (calls : List BuilderCall) : List String :=
  new.subject :: calls.filterMap BuilderCall.passed

/-- The stored fields of strings. -/
def AuditEvent.fields (e : AuditEvent) : List Field :=
  e.subject :: (e.capKeyId.toList ++ e.peer.toList ++ e.method.toList ++ e.topic.toList
    ++ e.requestId.toList ++ e.detail.toList)

theorem AuditEvent.mem_fields {e : AuditEvent} {f : Field} :
    f ∈ e.fields ↔ f = e.subject ∨ f ∈ e.capKeyId ∨ f ∈ e.peer ∨ f ∈ e.method ∨ f ∈ e.topic ∨
      f ∈ e.requestId ∨ f ∈ e.detail := by
  simp only [fields, List.mem_cons, List.mem_append, Option.mem_toList,
    Option.mem_def, or_assoc]

section Apply

open AuditEvent BuilderCall

/-- A call stores what `sanitize` makes of the string it passes, and keeps the other fields. -/
theorem mem_fields_apply {e : AuditEvent} {call : BuilderCall} {f : Field}
    (h : f ∈ (call.apply e).fields) :
    f ∈ e.fields ∨ ∃ s, call.passed = some s ∧ f = sanitize s := by
  rw [mem_fields] at h
  rw [mem_fields]
  cases call with
  | severity s => exact .inl h
  | transport t => exact .inl h
  | reason code => exact .inl h
  | latencyUs us => exact .inl h
  | _ =>
      simp only [apply, withCapKeyId, withPeer, withMethod, withTopic, withRequestId, withDetail,
        Option.mem_def, Option.some.injEq] at h
      simp only [BuilderCall.passed, Option.mem_def, Option.some.injEq, exists_eq_left']
      grind

theorem sanitize_mem_fields_apply {e : AuditEvent} {call : BuilderCall} {s : String}
    (h : call.passed = some s) : sanitize s ∈ (call.apply e).fields := by
  rw [mem_fields]
  cases call with
  | severity s => cases h
  | transport t => cases h
  | reason code => cases h
  | latencyUs us => cases h
  | _ =>
      cases h
      simp [apply, withCapKeyId, withPeer, withMethod, withTopic, withRequestId, withDetail]

end Apply

/-- **What the fields of a built event hold**: each was made of a string that was passed. -/
theorem exists_passed_of_mem_fields {new : Subject} {calls : List BuilderCall} {f : Field}
    (h : f ∈ (build new calls).fields) : ∃ s ∈ passed new calls, f = sanitize s := by
  induction calls using List.reverseRecOn with
  | nil =>
      rw [AuditEvent.mem_fields] at h
      obtain rfl : f = sanitize new.subject := by simpa [build, AuditEvent.new] using h
      exact ⟨new.subject, List.mem_cons_self, rfl⟩
  | append_singleton calls call ih =>
      rw [build, List.foldl_append] at h
      rw [passed, List.filterMap_append]
      rcases mem_fields_apply h with h | ⟨s, hs, rfl⟩
      · obtain ⟨s, hs, rfl⟩ := ih h
        exact ⟨s, List.mem_append_left _ hs, rfl⟩
      · refine ⟨s, List.mem_append_right (_ :: _) ?_, rfl⟩
        simp [hs]

/-- Every string that is passed is stored by the call that passes it. -/
theorem exists_fields_of_passed {new : Subject} {calls : List BuilderCall} {s : String}
    (h : s ∈ passed new calls) : ∃ k, sanitize s ∈ (build new (calls.take k)).fields := by
  rcases List.mem_cons.mp h with rfl | h
  · exact ⟨0, AuditEvent.mem_fields.mpr (.inl rfl)⟩
  · obtain ⟨call, hcall, hpassed⟩ := List.mem_filterMap.mp h
    obtain ⟨before, after, rfl⟩ := List.append_of_mem hcall
    refine ⟨before.length + 1, ?_⟩
    have htake : (before ++ call :: after).take (before.length + 1) = before ++ [call] := by
      rw [List.take_length_add_append]
      rfl
    rw [htake, build, List.foldl_append]
    exact sanitize_mem_fields_apply hpassed

/-! ## Bytes -/

/-- The bytes with which a character is stored: a control character becomes a blank. -/
def storedSize (c : Char) : Nat := if isControl c then 1 else c.utf8Size

/-- The characters that are kept of the string have no more than 1024 bytes. -/
def Fits (s : String) : Prop := ((s.toList.take maxFieldLen).map storedSize).sum ≤ 1024

instance (s : String) : Decidable (Fits s) := inferInstanceAs (Decidable (_ ≤ _))

theorem byteLen_sanitize (s : String) :
    byteLen (sanitize s).text.toList = ((s.toList.take maxFieldLen).map storedSize).sum := by
  have hblank : (' ' : Char).utf8Size = 1 := by decide
  rw [sanitize, String.toList_ofList, byteLen, List.map_map]
  congr 1
  refine List.map_congr_left fun c _ ↦ ?_
  rw [Function.comp_apply, storedSize]
  split
  · exact hblank
  · rfl

/-- A string of ASCII characters fits, however long it is. -/
theorem fits_of_ascii {s : String} (hascii : ∀ c ∈ s.toList, c.utf8Size = 1) : Fits s := by
  have hone : (s.toList.take maxFieldLen).map storedSize =
      List.replicate (s.toList.take maxFieldLen).length 1 := by
    refine List.eq_replicate_iff.mpr ⟨List.length_map _, fun n hn ↦ ?_⟩
    obtain ⟨c, hc, rfl⟩ := List.mem_map.mp hn
    rw [storedSize, hascii c (List.mem_of_mem_take hc), ite_self]
  rw [Fits, hone, List.sum_replicate_nat, Nat.mul_one, List.length_take]
  exact Nat.min_le_left _ _

/-! ## The bound -/

/-- The string fields of an event as they are documented. -/
def AuditEvent.BoundedFields (e : AuditEvent) : Prop :=
  ∀ f ∈ e.fields, (∀ c ∈ f.text.toList, isControl c = false) ∧ byteLen f.text.toList ≤ 1024

/-- A record that is one line, shorter than what `last_line_meta` reads. -/
def Record.OneShortLine (r : Record) : Prop :=
  '\n' ∉ r.line ∧ r.bytes = encode (r.line ++ ['\n']) ∧ r.bytes.length < tailLen

/-- Every record of the writer is a single line that is shorter than the window of a resume. -/
theorem oneShortLine_record (s : WriterState) (ev : AuditEvent) :
    (s.record ev).OneShortLine := by
  have hseq : (s.record ev).seq < 2 ^ 64 := Nat.mod_lt _ (by decide)
  have hlen := Record.byteLen_line_lt hseq
  have hnewline : ('\n' : Char).utf8Size = 1 := by decide
  refine ⟨(Record.isLine_line hseq).1, rfl, ?_⟩
  rw [Record.bytes, length_encode, byteLen_append, byteLen_cons, byteLen_nil, hnewline, tailLen]
  omega

/-- After every call the fields are bounded exactly when every string that was passed fits. -/
theorem boundedFields_iff (new : Subject) (calls : List BuilderCall) :
    (∀ k, (build new (calls.take k)).BoundedFields) ↔ ∀ s ∈ passed new calls, Fits s := by
  constructor
  · intro hbounded s hs
    obtain ⟨k, hk⟩ := exists_fields_of_passed hs
    have hlen := (hbounded k _ hk).2
    rwa [byteLen_sanitize] at hlen
  · intro hfits k f hf
    obtain ⟨s, hs, rfl⟩ := exists_passed_of_mem_fields hf
    refine ⟨(sanitize s).clean, ?_⟩
    rw [byteLen_sanitize]
    refine hfits s ?_
    rcases List.mem_cons.mp hs with rfl | hs
    · exact List.mem_cons_self
    · exact List.mem_cons_of_mem _ ((List.take_sublist k calls).filterMap _ |>.subset hs)

/-- **Audited texts.**  The fields that `new` and the setters store are free of control characters
and at most 1024 bytes long, and the record is one line shorter than the window of a resume,
exactly when every string that is passed has no more than 1024 bytes in what is kept of it. -/
theorem audit_fields_bounded_iff (new : Subject) (calls : List BuilderCall) :
    ((∀ k, (build new (calls.take k)).BoundedFields) ∧
      ∀ s : WriterState, (s.record (build new calls)).OneShortLine) ↔
      ∀ s ∈ passed new calls, Fits s := by
  rw [boundedFields_iff]
  exact and_iff_left fun s ↦ oneShortLine_record s _

/-- A subject of 600 letters with two bytes each. -/
def accents : Subject where
  now := 0
  kind := .authDecision
  decision := .deny
  subject := String.ofList (List.replicate 600 'é')

theorem not_fits_accents : ¬ Fits accents.subject := by
  have hsize : storedSize 'é' = 2 := by decide
  have htake : (List.replicate 600 'é').take maxFieldLen = List.replicate 600 'é' :=
    List.take_of_length_le (by rw [List.length_replicate]; decide)
  rw [Fits, accents, String.toList_ofList, htake, List.map_replicate,
    List.sum_replicate_nat, hsize]
  decide

theorem not_bounded_accents :
    ¬ ∀ (new : Subject) (calls : List BuilderCall),
      (∀ k, (build new (calls.take k)).BoundedFields) ∧
        ∀ s : WriterState, (s.record (build new calls)).OneShortLine := by
  intro h
  exact not_fits_accents ((boundedFields_iff accents []).mp (h accents []).1 _ List.mem_cons_self)

end Vaiexia.Audit
