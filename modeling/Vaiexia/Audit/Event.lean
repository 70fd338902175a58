import Vaiexia.Lib.Hex

/-!
# Audit events

The schema-v1 record of `crates/vaiexia-server/src/audit/mod.rs`: its enumerations with the texts
they serialize to, the field sanitizer, the builders, and the JSON members in the order serde
writes them, absent options left out.

A field that holds a string is a `Field`, the image of `sanitize`: at most `maxFieldLen`
characters, none of them a control character.  The builders are the only way to set one.
-/

namespace Vaiexia.Audit

open Vaiexia.Lib

/-- `MAX_FIELD_LEN`. -/
def maxFieldLen : Nat := 1024

/-- `SCHEMA_VERSION`. -/
def schemaVersion : Nat := 1

inductive AuditKind where
  | authDecision | topicDecision | scopeDecision | mutation | priv | bootstrap | lifecycle
  | config | listener | rateLimit | degraded | job | auditLoss
deriving DecidableEq, Repr

def AuditKind.text : AuditKind → String
  | authDecision => "auth_decision"
  | topicDecision => "topic_decision"
  | scopeDecision => "scope_decision"
  | mutation => "mutation"
  | priv => "priv"
  | bootstrap => "bootstrap"
  | lifecycle => "lifecycle"
  | config => "config"
  | listener => "listener"
  | rateLimit => "rate_limit"
  | degraded => "degraded"
  | job => "job"
  | auditLoss => "audit_loss"

inductive Severity where
  | info | notice | warning | security
deriving DecidableEq, Repr

def Severity.text : Severity → String
  | info => "info"
  | notice => "notice"
  | warning => "warning"
  | security => "security"

inductive AuditDecision where
  | allow | deny | ok | err
deriving DecidableEq, Repr

def AuditDecision.text : AuditDecision → String
  | allow => "allow"
  | deny => "deny"
  | ok => "ok"
  | err => "err"

inductive Transport where
  | http | tls
deriving DecidableEq, Repr

def Transport.text : Transport → String
  | http => "http"
  | tls => "tls"

/-- The codes of `mod reason`. -/
inductive Reason where
  | ok | badToken | revoked | expired | missingScope | unknownTopic | rateLimited
  | badPassword | unknownAccount | sensitiveRead | timeout | internal
deriving DecidableEq, Repr

def Reason.text : Reason → String
  | ok => "ok"
  | badToken => "bad_token"
  | revoked => "revoked"
  | expired => "expired"
  | missingScope => "missing_scope"
  | unknownTopic => "unknown_topic"
  | rateLimited => "rate_limited"
  | badPassword => "bad_password"
  | unknownAccount => "unknown_account"
  | sensitiveRead => "sensitive_read"
  | timeout => "timeout"
  | internal => "internal"

/-- `default_severity`. -/
def defaultSeverity : AuditKind → AuditDecision → Severity
  | .authDecision, .deny | .topicDecision, .deny | .scopeDecision, .deny | .bootstrap, .deny =>
      .security
  | .rateLimit, _ => .security
  | .authDecision, _ | .topicDecision, _ => .info
  | .mutation, .err | .priv, .err | .job, .err => .warning
  | .auditLoss, _ => .warning
  | _, _ => .notice

/-! ## Sanitized fields -/

/-- `char::is_control`: the Unicode category `Cc`. -/
def isControl (c : Char) : Bool := c.toNat < 0x20 || (0x7F ≤ c.toNat && c.toNat < 0xA0)

/-- A string that `sanitize` could have produced. -/
structure Field where
  text : String
  length_le : text.toList.length ≤ maxFieldLen
  clean : ∀ c ∈ text.toList, isControl c = false
deriving DecidableEq

/-- `sanitize`: the first `maxFieldLen` characters, control characters replaced by blanks. -/
def sanitize (s : String) : Field where
  text := String.ofList ((s.toList.take maxFieldLen).map fun c ↦ if isControl c then ' ' else c)
  length_le := by
    rw [String.toList_ofList, List.length_map, List.length_take]
    exact Nat.min_le_left _ _
  clean := by
    intro c hc
    rw [String.toList_ofList] at hc
    obtain ⟨d, _, rfl⟩ := List.mem_map.mp hc
    split
    · decide
    · rename_i hd
      exact Bool.eq_false_iff.mpr hd

/-- A string that needs no cleaning is kept. -/
theorem sanitize_text {s : String} (hlen : s.toList.length ≤ maxFieldLen)
    (hclean : (s.toList.all fun c ↦ !isControl c) = true) : (sanitize s).text = s := by
  have hmap : s.toList.map (fun c ↦ if isControl c then ' ' else c) = s.toList := by
    calc
      _ = s.toList.map id := List.map_congr_left fun c hc ↦ by
        have hc' := List.all_eq_true.mp hclean c hc
        rw [Bool.not_eq_true'] at hc'
        simp [hc']
      _ = s.toList := List.map_id _
  simp only [sanitize]
  rw [List.take_of_length_le hlen, hmap, String.ofList_toList]

/-! ## Events -/

/-- `AuditEvent`.  `schema_version` is the constant `schemaVersion` in every value. -/
structure AuditEvent where
  tsWall : UInt64
  kind : AuditKind
  severity : Severity
  decision : AuditDecision
  subject : Field
  capKeyId : Option Field
  peer : Option Field
  transport : Option Transport
  method : Option Field
  topic : Option Field
  requestId : Option Field
  reasonCode : Option Reason
  detail : Option Field
  latencyUs : Option UInt64
deriving DecidableEq

namespace AuditEvent

/-- `AuditEvent::new`, with the clock reading it takes as an argument. -/
def new (now : UInt64) (kind : AuditKind) (decision : AuditDecision) (subject : String) :
    AuditEvent where
  tsWall := now
  kind := kind
  severity := defaultSeverity kind decision
  decision := decision
  subject := sanitize subject
  capKeyId := none
  peer := none
  transport := none
  method := none
  topic := none
  requestId := none
  reasonCode := none
  detail := none
  latencyUs := none

def withSeverity (e : AuditEvent) (s : Severity) : AuditEvent := { e with severity := s }
def withCapKeyId (e : AuditEvent) (k : String) : AuditEvent :=
  { e with capKeyId := some (sanitize k) }
def withPeer (e : AuditEvent) (p : String) : AuditEvent := { e with peer := some (sanitize p) }
def withTransport (e : AuditEvent) (t : Transport) : AuditEvent := { e with transport := some t }
def withMethod (e : AuditEvent) (m : String) : AuditEvent := { e with method := some (sanitize m) }
def withTopic (e : AuditEvent) (t : String) : AuditEvent := { e with topic := some (sanitize t) }
def withRequestId (e : AuditEvent) (r : String) : AuditEvent :=
  { e with requestId := some (sanitize r) }
def withReason (e : AuditEvent) (code : Reason) : AuditEvent := { e with reasonCode := some code }
def withDetail (e : AuditEvent) (d : String) : AuditEvent := { e with detail := some (sanitize d) }
def withLatencyUs (e : AuditEvent) (us : UInt64) : AuditEvent := { e with latencyUs := some us }

section Builders

variable (e : AuditEvent)

@[simp] theorem decision_new (now : UInt64) (kind : AuditKind) (decision : AuditDecision)
    (subject : String) : (new now kind decision subject).decision = decision := rfl
@[simp] theorem decision_withCapKeyId (k : String) :
    (e.withCapKeyId k).decision = e.decision := rfl
@[simp] theorem decision_withMethod (m : String) : (e.withMethod m).decision = e.decision := rfl
@[simp] theorem decision_withTopic (t : String) : (e.withTopic t).decision = e.decision := rfl
@[simp] theorem decision_withReason (code : Reason) :
    (e.withReason code).decision = e.decision := rfl
@[simp] theorem decision_withDetail (d : String) : (e.withDetail d).decision = e.decision := rfl
@[simp] theorem decision_withLatencyUs (us : UInt64) :
    (e.withLatencyUs us).decision = e.decision := rfl

@[simp] theorem subject_new (now : UInt64) (kind : AuditKind) (decision : AuditDecision)
    (subject : String) : (new now kind decision subject).subject = sanitize subject := rfl
@[simp] theorem subject_withCapKeyId (k : String) : (e.withCapKeyId k).subject = e.subject := rfl
@[simp] theorem subject_withMethod (m : String) : (e.withMethod m).subject = e.subject := rfl
@[simp] theorem subject_withTopic (t : String) : (e.withTopic t).subject = e.subject := rfl
@[simp] theorem subject_withReason (code : Reason) : (e.withReason code).subject = e.subject := rfl
@[simp] theorem subject_withDetail (d : String) : (e.withDetail d).subject = e.subject := rfl
@[simp] theorem subject_withLatencyUs (us : UInt64) :
    (e.withLatencyUs us).subject = e.subject := rfl

end Builders

/-- `skip_serializing_if = "Option::is_none"`. -/
def optional (key : String) : Option Json → List (String × Json)
  | none => []
  | some v => [(key, v)]

/-- The members of a serialized event, in the order of the fields. -/
def members (e : AuditEvent) : List (String × Json) :=
  [("schema_version", .uint schemaVersion), ("ts_wall", .uint e.tsWall.toNat),
    ("kind", .str e.kind.text), ("severity", .str e.severity.text),
    ("decision", .str e.decision.text), ("subject", .str e.subject.text)]
  ++ optional "cap_key_id" (e.capKeyId.map fun f ↦ .str f.text)
  ++ optional "peer" (e.peer.map fun f ↦ .str f.text)
  ++ optional "transport" (e.transport.map fun t ↦ .str t.text)
  ++ optional "method" (e.method.map fun f ↦ .str f.text)
  ++ optional "topic" (e.topic.map fun f ↦ .str f.text)
  ++ optional "request_id" (e.requestId.map fun f ↦ .str f.text)
  ++ optional "reason_code" (e.reasonCode.map fun r ↦ .str r.text)
  ++ optional "detail" (e.detail.map fun f ↦ .str f.text)
  ++ optional "latency_us" (e.latencyUs.map fun us ↦ .uint us.toNat)

/-- The names of all members an event can have. -/
def memberNames : List String :=
  ["schema_version", "ts_wall", "kind", "severity", "decision", "subject", "cap_key_id", "peer",
    "transport", "method", "topic", "request_id", "reason_code", "detail", "latency_us"]

theorem optional_names_sublist (key : String) (o : Option Json) :
    ((optional key o).map Prod.fst).Sublist [key] := by
  cases o with
  | none => exact List.nil_sublist _
  | some v => exact List.Sublist.refl _

/-- The member names of an event are some of `memberNames`, in that order. -/
theorem members_names_sublist (e : AuditEvent) :
    (e.members.map Prod.fst).Sublist memberNames := by
  simp only [members, List.map_append, List.map_cons, List.map_nil]
  exact ((((((((((List.Sublist.refl _).append (optional_names_sublist _ _)).append
    (optional_names_sublist _ _)).append (optional_names_sublist _ _)).append
    (optional_names_sublist _ _)).append (optional_names_sublist _ _)).append
    (optional_names_sublist _ _)).append (optional_names_sublist _ _)).append
    (optional_names_sublist _ _)).append (optional_names_sublist _ _))

theorem readable_optional {d : Nat} {key : String} {o : Option Json}
    (h : ∀ v ∈ o, Json.ReadableIn d v) : ∀ m ∈ optional key o, Json.ReadableIn d m.2 := by
  cases o with
  | none => simp [optional]
  | some v => simpa [optional] using h

end AuditEvent

end Vaiexia.Audit
