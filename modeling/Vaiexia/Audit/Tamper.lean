import Mathlib.Data.Set.Function
import Vaiexia.Audit.Verify
import Vaiexia.Lib.BackwardChain
import Vaiexia.Lib.JsonParse

/-!
# Tamper evidence

What a body that passes `verify_chain_str` fixes.  The `prev` of a line is the hash of the line
before, whatever else the lines are, so that a line determines its predecessor as far as the hash
does; from the last line on, two accepted bodies agree.
-/

namespace Vaiexia.Audit

open Vaiexia.Lib

section Tamper

variable {blake3 : Bytes → Bytes32} {fromStr : List Char → Option Json}

/-- What the verifier takes for the `prev` of a line. -/
def recPrev (fromStr : List Char → Option Json) (line : List Char) : Option String :=
  (fromStr line).map fun v ↦ (v.getD "prev").asStr.getD ""

/-- A line that passes has the link that is expected, and its own hash is expected next. -/
theorem verifyLine_ok {n : Nat} {s s' : Scan} {line : List Char}
    (h : verifyLine blake3 fromStr n s line = .ok s') :
    (∀ expect ∈ s.prev, recPrev fromStr line = some expect) ∧
      s'.prev = some (lineHash blake3 line).text := by
  unfold verifyLine at h
  split at h
  · cases h
  · rename_i v hv
    split at h
    · cases h
    · split at h
      · cases h
      · split at h
        · cases h
        · rename_i seq hseq
          -- the sequence number is compared first; both ways end at the link
          have hcheck : s.prev.elim
              (Except.ok (⟨some (lineHash blake3 line).text, some seq, s.count + 1⟩ : Scan))
              (fun expect ↦
                if (v.getD "prev").asStr.getD "" ≠ expect then Except.error (ChainError.broken n)
                else Except.ok ⟨some (lineHash blake3 line).text, some seq, s.count + 1⟩) =
              Except.ok s' := by
            dsimp only at h
            split at h
            · revert h
              cases s.prev <;> exact id
            · split at h
              · cases h
              · split at h
                · cases h
                · revert h
                  cases s.prev <;> exact id
          cases hprev : s.prev with
          | some expect =>
              rw [hprev, Option.elim_some] at hcheck
              split at hcheck
              · cases hcheck
              · rename_i heq
                rw [← Except.ok.inj hcheck]
                refine ⟨fun e he ↦ ?_, rfl⟩
                obtain rfl := Option.some.inj he
                rw [recPrev, hv, Option.map_some, not_not.mp heq]
          | none =>
              rw [hprev, Option.elim_none] at hcheck
              rw [← Except.ok.inj hcheck]
              refine ⟨fun e he ↦ ?_, rfl⟩
              cases he

/-- **An accepted body is a chain**: every line carries the hash of the line before. -/
theorem verifyLines_chain {n m : Nat} {s : Scan} {lines : List (List Char)}
    (h : verifyLines blake3 fromStr n s lines = .ok m) :
    (∀ line ∈ lines.head?, ∀ expect ∈ s.prev, recPrev fromStr line = some expect) ∧
      lines.IsChain fun line next ↦ recPrev fromStr next = some (lineHash blake3 line).text := by
  induction lines generalizing n s with
  | nil => exact ⟨by simp, .nil⟩
  | cons line lines ih =>
      rw [verifyLines] at h
      split at h
      · cases h
      · rename_i s' hline
        obtain ⟨hprev, hnext⟩ := verifyLine_ok hline
        obtain ⟨hhead, hchain⟩ := ih h
        refine ⟨?_, List.isChain_cons.mpr ⟨fun next hnextmem ↦ hhead next hnextmem _ hnext, hchain⟩⟩
        intro l hl
        obtain rfl := Option.some.inj hl
        exact hprev

/-- Two accepted bodies with the same last line: one has the lines of the other at its end. -/
theorem suffix_of_accepted {a b : List Char}
    (hinjective : Set.InjOn (fun line ↦ (lineHash blake3 line).text)
      {line | line ∈ Text.lines a ∨ line ∈ Text.lines b})
    (hlast : (Text.lines a).getLast? = (Text.lines b).getLast?) {n m : Nat}
    (ha : verifyChainStr blake3 fromStr a = .ok n)
    (hb : verifyChainStr blake3 fromStr b = .ok m) :
    Text.lines a <:+ Text.lines b ∨ Text.lines b <:+ Text.lines a := by
  refine BackwardChain.suffixes_comparable ?_ (verifyLines_chain ha).2 (verifyLines_chain hb).2
    hlast
  intro x hx y hy z hxz hyz
  exact hinjective (.inl hx) (.inr hy) (Option.some.inj (hxz.symm.trans hyz))

/-- **Tamper evidence.**  Let `a` be an accepted body and `b` one with the same last line, and let
the hash tell their lines apart.  If `b` is accepted too, then the lines of the shorter one are the
last lines of the longer one; and if `b` does not come from `a` by removing or prepending lines at
the head only, it is rejected. -/
theorem tamper_evident {a b : List Char}
    (hinjective : Set.InjOn (fun line ↦ (lineHash blake3 line).text)
      {line | line ∈ Text.lines a ∨ line ∈ Text.lines b})
    (hlast : (Text.lines a).getLast? = (Text.lines b).getLast?) {n : Nat}
    (ha : verifyChainStr blake3 fromStr a = .ok n) :
    (∀ m, verifyChainStr blake3 fromStr b = .ok m →
      ((Text.lines a).length ≤ (Text.lines b).length → Text.lines a <:+ Text.lines b) ∧
      ((Text.lines b).length ≤ (Text.lines a).length → Text.lines b <:+ Text.lines a)) ∧
    (¬ Text.lines a <:+ Text.lines b → ¬ Text.lines b <:+ Text.lines a →
      ∃ e, verifyChainStr blake3 fromStr b = .error e) := by
  constructor
  · intro m hb
    rcases suffix_of_accepted hinjective hlast ha hb with h | h
    · refine ⟨fun _ ↦ h, fun hle ↦ ?_⟩
      have hsame := h.eq_of_length_le hle
      exact hsame ▸ List.suffix_refl _
    · refine ⟨fun hle ↦ ?_, fun _ ↦ h⟩
      have hsame := h.eq_of_length_le hle
      exact hsame ▸ List.suffix_refl _
  · intro hab hba
    rcases hb : verifyChainStr blake3 fromStr b with e | m
    · exact ⟨e, rfl⟩
    · rcases suffix_of_accepted hinjective hlast ha hb with h | h
      · exact absurd h hab
      · exact absurd h hba

end Tamper

/-! ### Two records -/

/-- The first record of a session. -/
def firstRecord : Record where
  seq := 1
  prev := genesis
  event := .new 1700000000 .lifecycle .ok "system"

/-- What BLAKE3 says about the lines of two records. -/
def sampleBlake3 (bytes : Bytes) : Bytes32 :=
  if bytes = Utf8.encode firstRecord.line then
    { bytes := [0x52, 0x7c, 0x9b, 0xff, 0xb7, 0x5a, 0x7f, 0x29, 0x68, 0x5f, 0x9d, 0x09, 0xcf,
        0xd6, 0xac, 0xf8, 0xd3, 0x5d, 0xdf, 0x23, 0xe5, 0x7a, 0xb5, 0x3f, 0xb2, 0x0a, 0x8d, 0x33,
        0x4b, 0xdd, 0x2c, 0xdb]
      length_eq := rfl }
  else
    { bytes := [0x0a, 0x9c, 0x25, 0xdc, 0x81, 0xf1, 0x18, 0x4d, 0xd4, 0x38, 0x3b, 0x56, 0xb5,
        0x42, 0x5a, 0x11, 0x15, 0x0a, 0x8a, 0xa1, 0x31, 0x5e, 0xd0, 0x3b, 0x6e, 0xd8, 0x55, 0x35,
        0x75, 0x17, 0x76, 0x91]
      length_eq := rfl }

/-- The record after it. -/
def secondRecord : Record where
  seq := 2
  prev := lineHash sampleBlake3 firstRecord.line
  event := .new 1700000000 .lifecycle .ok "system"

theorem lines_of_two :
    Text.lines (Text.unlines ([firstRecord, secondRecord].map Record.line))
      = [firstRecord.line, secondRecord.line] := by
  refine Text.lines_unlines fun l hl ↦ ?_
  obtain ⟨r, hr, rfl⟩ := List.mem_map.mp hl
  rcases List.mem_pair.mp hr with rfl | rfl
  · exact Record.isLine_line (by decide)
  · exact Record.isLine_line (by decide)

theorem lines_of_second :
    Text.lines (Text.unlines ([secondRecord].map Record.line)) = [secondRecord.line] := by
  refine Text.lines_unlines fun l hl ↦ ?_
  obtain ⟨r, hr, rfl⟩ := List.mem_map.mp hl
  obtain rfl := List.mem_singleton.mp hr
  exact Record.isLine_line (by decide)

/-- The second record alone is what is left of both. -/
theorem tamper_evident_twoRecords :
    Text.lines (Text.unlines ([secondRecord].map Record.line))
      <:+ Text.lines (Text.unlines ([firstRecord, secondRecord].map Record.line)) := by
  have hdiffer : (lineHash sampleBlake3 firstRecord.line).text
      ≠ (lineHash sampleBlake3 secondRecord.line).text := by decide +kernel
  have htwo : verifyChainStr sampleBlake3 Json.parse
      (Text.unlines ([firstRecord, secondRecord].map Record.line)) = .ok 2 := by
    refine verifyChainStr_unlines Json.readsBack_parse ?_ ?_
    · decide
    · exact .cons_cons ⟨rfl, rfl⟩ (.singleton _)
  have hone : verifyChainStr sampleBlake3 Json.parse
      (Text.unlines ([secondRecord].map Record.line)) = .ok 1 :=
    verifyChainStr_unlines Json.readsBack_parse (by decide) (.singleton _)
  refine ((tamper_evident ?_ ?_ htwo).1 1 hone).2 ?_
  · rw [lines_of_two, lines_of_second]
    have hmem : ∀ x, x ∈ [firstRecord.line, secondRecord.line] ∨ x ∈ [secondRecord.line] →
        x = firstRecord.line ∨ x = secondRecord.line := by simp
    intro x hx y hy hxy
    rcases hmem x hx with rfl | rfl
    · rcases hmem y hy with rfl | rfl
      · rfl
      · exact absurd hxy hdiffer
    · rcases hmem y hy with rfl | rfl
      · exact absurd hxy.symm hdiffer
      · rfl
  · rw [lines_of_two, lines_of_second]
    rfl
  · rw [lines_of_two, lines_of_second]
    decide

end Vaiexia.Audit
