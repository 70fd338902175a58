import Vaiexia.Audit.Event

/-!
# Audit records and their lines

A record is an event under its sequence number and its link to the record before it.  Its line is
what `serde_json::to_string` makes of it: `seq` and `prev` first, then the members of the
flattened event.

What the writer, the verifier and the reader of the tail need of a line is proved here once: it
is one line of text (`isLine_line`), it reads back (`readable_json`), and it is shorter than
32 KiB whatever the event's texts are (`byteLen_line_lt`), which the sanitizer is there for.
-/

namespace Vaiexia.Audit

open Vaiexia.Lib Utf8

/-! ## Links -/

/-- The text of a `prev` the writer can hold: sixteen hexadecimal digits. -/
structure Link where
  text : String
  length_eq : text.toList.length = 16
  hex : ∀ c ∈ text.toList, c ∈ Hex.digits
deriving DecidableEq

/-- `GENESIS`. -/
def genesis : Link where
  text := "0000000000000000"
  length_eq := by decide
  hex := by
    have hall : ("0000000000000000".toList.all fun c ↦ decide (c ∈ Hex.digits)) = true := by decide
    exact fun c hc ↦ of_decide_eq_true (List.all_eq_true.mp hall c hc)

/-- `line_hash`: the first sixteen hexadecimal digits of the line's BLAKE3 hash. -/
def lineHash (blake3 : Bytes → Bytes32) (line : List Char) : Link where
  text := String.ofList ((Hex.ofBytes (blake3 (encode line)).bytes).take 16)
  length_eq := by
    rw [String.toList_ofList, List.length_take, Hex.length_ofBytes, (blake3 _).length_eq]
    rfl
  hex := by
    intro c hc
    rw [String.toList_ofList] at hc
    exact Hex.mem_digits_of_mem_ofBytes (List.mem_of_mem_take hc)

/-- A rendered link takes its sixteen digits and two quotes. -/
theorem byteLen_render_link (l : Link) : byteLen (Json.render (.str l.text)) = 18 := by
  have hplain : ∀ c ∈ l.text.toList, Json.escapeChar c = [c] :=
    fun c hc ↦ (Hex.plain_of_mem_digits (l.hex c hc)).1
  have hone : ∀ c ∈ l.text.toList, c.utf8Size = 1 :=
    fun c hc ↦ (Hex.plain_of_mem_digits (l.hex c hc)).2.1
  rw [Json.render, Json.byteLen_renderStr_of_plain hplain, byteLen_eq_length hone, l.length_eq]

/-! ## Records -/

/-- `Record`. -/
structure Record where
  seq : Nat
  prev : Link
  event : AuditEvent
deriving DecidableEq

namespace Record

/-- The members of a record, those of the flattened event after its own two. -/
def members (r : Record) : List (String × Json) :=
  ("seq", .uint r.seq) :: ("prev", .str r.prev.text) :: r.event.members

/-- The document a record serializes to. -/
def json (r : Record) : Json := .obj r.members

/-- The line of a record, without its newline. -/
def line (r : Record) : List Char := r.json.render

/-- No member name is written twice. -/
theorem nodup_names (r : Record) : (r.members.map Prod.fst).Nodup := by
  have hnd : ("seq" :: "prev" :: AuditEvent.memberNames).Nodup := by decide
  exact ((r.event.members_names_sublist.cons_cons "prev").cons_cons "seq").nodup hnd

/-- A member of a record is read back under its name. -/
theorem get?_json {r : Record} {key : String} {v : Json} (h : (key, v) ∈ r.members) :
    r.json.get? key = some v :=
  Json.get?_obj_of_mem r.nodup_names h

/-- The document of a record is within the reader's limits. -/
theorem readable_json {r : Record} (h : r.seq < 2 ^ 64) : r.json.Readable := by
  intro m hm
  simp only [members, AuditEvent.members, List.mem_cons, List.mem_append, List.not_mem_nil,
    or_false] at hm
  rcases hm with rfl | rfl | ((((((((((rfl | rfl | rfl | rfl | rfl | rfl) | hm) | hm) | hm) | hm)
    | hm) | hm) | hm) | hm) | hm)
  · exact h
  · exact trivial
  · show schemaVersion < 2 ^ 64
    decide
  · exact r.event.tsWall.toNat_lt
  · exact trivial
  · exact trivial
  · exact trivial
  · exact trivial
  all_goals
    refine AuditEvent.readable_optional ?_ m hm
    rintro v hv
    obtain ⟨x, _, rfl⟩ := Option.map_eq_some_iff.mp hv
    first | exact trivial | exact x.toNat_lt

/-- A record's line is not broken by any text of its event. -/
theorem isLine_line {r : Record} (h : r.seq < 2 ^ 64) : Text.IsLine r.line := by
  have hctl : ∀ c ∈ r.line, 0x20 ≤ c.toNat := Json.render_not_control (readable_json h)
  refine ⟨fun hmem ↦ ?_, fun hlast ↦ ?_⟩
  · exact absurd (hctl _ hmem) (by decide)
  · exact absurd (hctl _ (List.mem_of_mem_getLast? hlast)) (by decide)

theorem line_ne_nil (r : Record) : r.line ≠ [] := by
  simp [line, json, Json.render]

/-! ## The length of a line -/

/-- The bytes of an optional member are bounded when those of its value are. -/
theorem sum_optional_le {key : String} {o : Option Json} {b : Nat}
    (h : ∀ v ∈ o, Json.memberBytes (key, v) ≤ b) :
    ((AuditEvent.optional key o).map Json.memberBytes).sum ≤ b := by
  cases o with
  | none => exact Nat.zero_le _
  | some v => simpa [AuditEvent.optional] using h v rfl

/-- A sanitized text takes at most four bytes a character and its quotes. -/
theorem byteLen_render_field_le (f : Field) :
    byteLen (Json.render (.str f.text)) ≤ 4 * maxFieldLen + 2 := by
  have hctl : ∀ c ∈ f.text.toList, 0x20 ≤ c.toNat := by
    intro c hc
    have := f.clean c hc
    simp only [isControl, Bool.or_eq_false_iff, decide_eq_false_iff_not] at this
    omega
  calc
    _ ≤ 4 * f.text.toList.length + 2 := Json.byteLen_renderStr_le hctl
    _ ≤ 4 * maxFieldLen + 2 := by have := f.length_le; omega

/-- The bytes of a member under one of the names of a record. -/
theorem memberBytes_le (key : String) (hkey : key ∈ "seq" :: "prev" :: AuditEvent.memberNames)
    {v : Json} {b : Nat} (h : byteLen v.render ≤ b) : Json.memberBytes (key, v) ≤ b + 18 := by
  have hname : ∀ k ∈ "seq" :: "prev" :: AuditEvent.memberNames,
      byteLen (Json.renderStr k) ≤ 16 := by decide
  have := hname key hkey
  rw [Json.memberBytes_eq]
  omega

/-- A member that holds a sanitized text. -/
theorem memberBytes_field_le (key : String)
    (hkey : key ∈ "seq" :: "prev" :: AuditEvent.memberNames) {f : Field} :
    Json.memberBytes (key, .str f.text) ≤ 4116 :=
  memberBytes_le key hkey (byteLen_render_field_le f)

/-- A member that holds a sanitized text, or is left out. -/
theorem sum_optional_field_le (key : String)
    (hkey : key ∈ "seq" :: "prev" :: AuditEvent.memberNames) {o : Option Field} :
    ((AuditEvent.optional key (o.map fun f ↦ .str f.text)).map Json.memberBytes).sum ≤ 4116 := by
  refine sum_optional_le fun v hv ↦ ?_
  obtain ⟨f, _, rfl⟩ := Option.map_eq_some_iff.mp hv
  exact memberBytes_field_le key hkey

theorem byteLen_kind_le (k : AuditKind) : byteLen (Json.render (.str k.text)) ≤ 20 := by
  cases k <;> decide

theorem byteLen_severity_le (s : Severity) : byteLen (Json.render (.str s.text)) ≤ 20 := by
  cases s <;> decide

theorem byteLen_decision_le (d : AuditDecision) : byteLen (Json.render (.str d.text)) ≤ 20 := by
  cases d <;> decide

theorem byteLen_transport_le (t : Transport) : byteLen (Json.render (.str t.text)) ≤ 20 := by
  cases t <;> decide

theorem byteLen_reason_le (r : Reason) : byteLen (Json.render (.str r.text)) ≤ 20 := by
  cases r <;> decide

/-- The members of an event: seven texts, and eight members of less than forty bytes. -/
theorem sum_memberBytes_event_le (e : AuditEvent) :
    (e.members.map Json.memberBytes).sum ≤ 7 * 4116 + 8 * 38 := by
  have hver := memberBytes_le "schema_version" (v := .uint schemaVersion) (by decide)
    (Json.byteLen_uint_le (by decide))
  have hts := memberBytes_le "ts_wall" (by decide)
    (Json.byteLen_uint_le e.tsWall.toNat_lt)
  have hkind := memberBytes_le "kind" (by decide) (byteLen_kind_le e.kind)
  have hsev := memberBytes_le "severity" (by decide) (byteLen_severity_le e.severity)
  have hdec := memberBytes_le "decision" (by decide) (byteLen_decision_le e.decision)
  have hsub := memberBytes_field_le "subject" (by decide) (f := e.subject)
  have hkey := sum_optional_field_le "cap_key_id" (by decide) (o := e.capKeyId)
  have hpeer := sum_optional_field_le "peer" (by decide) (o := e.peer)
  have hmethod := sum_optional_field_le "method" (by decide) (o := e.method)
  have htopic := sum_optional_field_le "topic" (by decide) (o := e.topic)
  have hreq := sum_optional_field_le "request_id" (by decide) (o := e.requestId)
  have hdetail := sum_optional_field_le "detail" (by decide) (o := e.detail)
  have htr : ((AuditEvent.optional "transport"
      (e.transport.map fun t ↦ .str t.text)).map Json.memberBytes).sum ≤ 38 := by
    refine sum_optional_le fun v hv ↦ ?_
    obtain ⟨t, _, rfl⟩ := Option.map_eq_some_iff.mp hv
    exact memberBytes_le _ (by decide) (byteLen_transport_le t)
  have hreason : ((AuditEvent.optional "reason_code"
      (e.reasonCode.map fun r ↦ .str r.text)).map Json.memberBytes).sum ≤ 38 := by
    refine sum_optional_le fun v hv ↦ ?_
    obtain ⟨r, _, rfl⟩ := Option.map_eq_some_iff.mp hv
    exact memberBytes_le _ (by decide) (byteLen_reason_le r)
  have hlat : ((AuditEvent.optional "latency_us"
      (e.latencyUs.map fun us ↦ .uint us.toNat)).map Json.memberBytes).sum ≤ 38 := by
    refine sum_optional_le fun v hv ↦ ?_
    obtain ⟨us, _, rfl⟩ := Option.map_eq_some_iff.mp hv
    exact memberBytes_le _ (by decide) (Json.byteLen_uint_le us.toNat_lt)
  simp only [AuditEvent.members, List.map_append, List.map_cons, List.map_nil, List.sum_append,
    List.sum_cons, List.sum_nil]
  omega

/-- **No line reaches 32 KiB**, whatever was passed to the builders. -/
theorem byteLen_line_lt {r : Record} (h : r.seq < 2 ^ 64) : byteLen r.line < 32768 := by
  have hseq := memberBytes_le "seq" (by decide) (Json.byteLen_uint_le h)
  have hprev := memberBytes_le "prev" (by decide) (Nat.le_of_eq (byteLen_render_link r.prev))
  have hevent := sum_memberBytes_event_le r.event
  have hobj := Json.byteLen_renderObj_le r.members
  have hbrace : ('{' : Char).utf8Size = 1 ∧ ('}' : Char).utf8Size = 1 := by decide
  simp only [members, List.map_cons, List.sum_cons] at hobj
  simp only [line, json, Json.render, List.cons_append, byteLen_cons, byteLen_append,
    byteLen_nil, hbrace.1, hbrace.2, members]
  omega

end Record

end Vaiexia.Audit
