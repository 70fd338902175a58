import Mathlib.Data.List.Chain
import Vaiexia.Audit.Record

/-!
# The chain verifier

`verify_chain_str`: a loop over the lines of a body that remembers the hash and the sequence
number of the line before.  The reader of a line, `serde_json::from_str::<Value>`, is the
parameter `fromStr`, and BLAKE3 the parameter `blake3`.

The loop is related to the records a body was written from in one step (`verifyLine_record`) and
from there over a whole body (`verifyChainStr_unlines`): what the verifier demands of
consecutive records is `Follows`, and nothing is demanded of the first.
-/

namespace Vaiexia.Audit

open Vaiexia.Lib Utf8

/-- `ChainError`. -/
inductive ChainError where
  | io
  | badJson (line : Nat)
  | badSchema (line : Nat) (what : String)
  | broken (line : Nat)
  | seqGap (line expected got : Nat)
deriving DecidableEq, Repr

/-- What the loop of `verify_chain_str` carries. -/
structure Scan where
  prev : Option String
  prevSeq : Option Nat
  count : Nat
deriving DecidableEq

/-- The state before the first line. -/
def Scan.start : Scan where
  prev := none
  prevSeq := none
  count := 0

/-- The keys a record must have, besides the ones that are read. -/
def requiredKeys : List String := ["kind", "severity", "decision", "subject"]

section

variable (blake3 : Bytes → Bytes32) (fromStr : List Char → Option Json)

/-- The body of the loop, for the line with number `n`. -/
def verifyLine (n : Nat) (s : Scan) (line : List Char) : Except ChainError Scan :=
  match fromStr line with
  | none => .error (.badJson n)
  | some v =>
      if (v.getD "schema_version").asU64 ≠ some schemaVersion then
        .error (.badSchema n "schema_version")
      else if requiredKeys.any fun key ↦ (v.get? key).isNone then
        .error (.badSchema n "missing required key")
      else
        match (v.getD "seq").asU64 with
        | none => .error (.badSchema n "seq")
        | some seq =>
            let recPrev := (v.getD "prev").asStr.getD ""
            let next : Scan :=
              { prev := some (lineHash blake3 line).text, prevSeq := some seq,
                count := s.count + 1 }
            let checkPrev : Except ChainError Scan :=
              match s.prev with
              | some expect => if recPrev ≠ expect then .error (.broken n) else .ok next
              | none => .ok next
            match s.prevSeq with
            | none => checkPrev
            | some ps =>
                if ps + 1 = 2 ^ 64 then .error (.badSchema n "seq overflow")
                else if seq ≠ ps + 1 then .error (.seqGap n (ps + 1) seq)
                else checkPrev

/-- The loop, from the line with number `n` on. -/
def verifyLines : Nat → Scan → List (List Char) → Except ChainError Nat
  | _, s, [] => .ok s.count
  | n, s, line :: lines =>
      match verifyLine blake3 fromStr n s line with
      | .error e => .error e
      | .ok s => verifyLines (n + 1) s lines

/-- `verify_chain_str`. -/
def verifyChainStr (body : List Char) : Except ChainError Nat :=
  verifyLines blake3 fromStr 1 Scan.start (Text.lines body)

/-- `verify_chain`, for the content of the file if there is one. -/
def verifyChain (file : Option Bytes) : Except ChainError Nat :=
  match file.bind decode with
  | none => .error .io
  | some body => verifyChainStr blake3 fromStr body

end

/-! ## What the verifier demands of records -/

/-- `r'` continues the chain after `r`. -/
def Follows (blake3 : Bytes → Bytes32) (r r' : Record) : Prop :=
  r'.seq = r.seq + 1 ∧ r'.prev = lineHash blake3 r.line

/-- The state of the loop after the line of `r`, the `n`-th line. -/
def Scan.after (blake3 : Bytes → Bytes32) (r : Record) (n : Nat) : Scan where
  prev := some (lineHash blake3 r.line).text
  prevSeq := some r.seq
  count := n

/-- The state of the loop lets `r` come next. -/
def Scan.Admits (s : Scan) (r : Record) : Prop :=
  (∀ expect ∈ s.prev, r.prev.text = expect) ∧ (∀ ps ∈ s.prevSeq, r.seq = ps + 1)

section

variable {blake3 : Bytes → Bytes32} {fromStr : List Char → Option Json}

theorem Scan.admits_start (r : Record) : Scan.start.Admits r :=
  ⟨by simp [Scan.start], by simp [Scan.start]⟩

theorem Scan.admits_after {r r' : Record} {n : Nat} (h : Follows blake3 r r') :
    (Scan.after blake3 r n).Admits r' := by
  refine ⟨?_, ?_⟩
  · simp [Scan.after, h.2]
  · simp [Scan.after, h.1]

/-- What the verifier looks up in a record is there. -/
theorem Record.schema (r : Record) :
    r.json.getD "schema_version" = .uint schemaVersion ∧ r.json.getD "seq" = .uint r.seq
      ∧ r.json.getD "prev" = .str r.prev.text := by
  have hver : ("schema_version", Json.uint schemaVersion) ∈ r.members := by
    simp [Record.members, AuditEvent.members]
  have hseq : ("seq", Json.uint r.seq) ∈ r.members := by simp [Record.members]
  have hprev : ("prev", Json.str r.prev.text) ∈ r.members := by simp [Record.members]
  refine ⟨?_, ?_, ?_⟩
  · rw [Json.getD, Record.get?_json hver, Option.getD_some]
  · rw [Json.getD, Record.get?_json hseq, Option.getD_some]
  · rw [Json.getD, Record.get?_json hprev, Option.getD_some]

/-- No record lacks a required key. -/
theorem Record.required (r : Record) :
    (requiredKeys.any fun key ↦ (r.json.get? key).isNone) = false := by
  have hmem : ("kind", Json.str r.event.kind.text) ∈ r.members
      ∧ ("severity", Json.str r.event.severity.text) ∈ r.members
      ∧ ("decision", Json.str r.event.decision.text) ∈ r.members
      ∧ ("subject", Json.str r.event.subject.text) ∈ r.members := by
    simp [Record.members, AuditEvent.members]
  simp [requiredKeys, Record.get?_json hmem.1, Record.get?_json hmem.2.1,
    Record.get?_json hmem.2.2.1, Record.get?_json hmem.2.2.2]

/-- **One line**: the line of a record passes in every state that admits the record. -/
theorem verifyLine_record (hread : Json.ReadsBack fromStr) {r : Record} (hr : r.seq < 2 ^ 64)
    {s : Scan} {n : Nat} (hs : s.Admits r) :
    verifyLine blake3 fromStr n s r.line = .ok (Scan.after blake3 r (s.count + 1)) := by
  have hjson : fromStr r.line = some r.json := hread r.json (Record.readable_json hr)
  obtain ⟨hver, hseq, hprev⟩ := r.schema
  have hseq64 : Json.asU64 (.uint r.seq) = some r.seq := if_pos hr
  have hver64 : Json.asU64 (.uint schemaVersion) = some schemaVersion := rfl
  simp only [verifyLine, hjson, hver, hseq, hprev, hver64, hseq64, r.required, Json.asStr,
    Option.getD_some, ne_eq, not_true_eq_false, if_false, Bool.false_eq_true]
  obtain ⟨sprev, sseq, count⟩ := s
  obtain ⟨hp, hq⟩ := hs
  -- The link is compared after the sequence number; neither comparison fails.
  have hcheck : (match sprev with
      | some expect => if ¬ r.prev.text = expect then Except.error (ChainError.broken n)
          else .ok (Scan.after blake3 r (count + 1))
      | none => .ok (Scan.after blake3 r (count + 1)))
        = Except.ok (Scan.after blake3 r (count + 1)) := by
    cases sprev with
    | none => rfl
    | some expect => simp [hp expect rfl]
  cases sseq with
  | none => exact hcheck
  | some ps =>
      have hnext : r.seq = ps + 1 := hq ps rfl
      have hover : ps + 1 ≠ 2 ^ 64 := by omega
      simp only [hover, hnext, if_false, not_true_eq_false]
      rw [← hnext]
      exact hcheck

/-- **Every line**: records that follow each other are counted, after a state that admits the
first of them. -/
theorem verifyLines_records (hread : Json.ReadsBack fromStr) {rs : List Record}
    (hrs : ∀ r ∈ rs, r.seq < 2 ^ 64) (hchain : rs.IsChain (Follows blake3)) {s : Scan} {n : Nat}
    (hs : ∀ r ∈ rs.head?, s.Admits r) :
    verifyLines blake3 fromStr n s (rs.map Record.line) = .ok (s.count + rs.length) := by
  induction rs generalizing s n with
  | nil => rfl
  | cons r rs ih =>
      have hline : verifyLine blake3 fromStr n s r.line = _ :=
        verifyLine_record hread (hrs r (by simp)) (hs r rfl)
      obtain ⟨hnext, hrest⟩ := List.isChain_cons.mp hchain
      have hadmits : ∀ r' ∈ rs.head?, (Scan.after blake3 r (s.count + 1)).Admits r' :=
        fun r' hr' ↦ Scan.admits_after (hnext r' hr')
      have hloop := ih (fun r' hr' ↦ hrs r' (by simp [hr'])) hrest hadmits (n := n + 1)
      have hcount : s.count + 1 + rs.length = s.count + (r :: rs).length := by
        rw [List.length_cons]
        omega
      rw [List.map_cons, verifyLines, hline]
      rw [← hcount]
      exact hloop

/-- **A body of records** that follow each other is accepted, and every record is counted. -/
theorem verifyChainStr_unlines (hread : Json.ReadsBack fromStr) {rs : List Record}
    (hrs : ∀ r ∈ rs, r.seq < 2 ^ 64) (hchain : rs.IsChain (Follows blake3)) :
    verifyChainStr blake3 fromStr (Text.unlines (rs.map Record.line)) = .ok rs.length := by
  have hlines : Text.lines (Text.unlines (rs.map Record.line)) = rs.map Record.line := by
    refine Text.lines_unlines fun l hl ↦ ?_
    obtain ⟨r, hr, rfl⟩ := List.mem_map.mp hl
    exact Record.isLine_line (hrs r hr)
  rw [verifyChainStr, hlines, verifyLines_records hread hrs hchain fun r _ ↦ Scan.admits_start r]
  simp [Scan.start]

end

end Vaiexia.Audit
