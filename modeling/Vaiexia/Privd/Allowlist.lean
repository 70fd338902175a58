import Vaiexia.Lib.Disk
import Vaiexia.Lib.Text
import Vaiexia.Privd.Protocol

/-!
# The operator's allowlist

`Allowlist`, `parse_allowlist` and `load_allowlist` of `crates/vaiexia-privd/src/allowlist.rs`.
Comments and blank lines are skipped, and so are lines that are no package name, with a warning:
a line never adds anything to the list but itself, trimmed (`mem_parseAllowlist`).
-/

namespace Vaiexia.Privd

open Vaiexia.Lib

/-- `Allowlist`. -/
inductive Allowlist where
  | permissive
  | restricted (names : List String)
deriving DecidableEq

/-- `Allowlist::permits`. -/
def Allowlist.permits (al : Allowlist) (name : String) : Bool :=
  if (PackageName.parse name).isNone then false
  else
    match al with
    | .permissive => true
    | .restricted names => names.contains name

/-- The loop of `parse_allowlist`, from the line with number `n` on: names and warnings. -/
def parseAllowlistLines : Nat → List (List Char) → List String × List String
  | _, [] => ([], [])
  | n, raw :: lines =>
      let line := Text.trim raw
      let (names, warnings) := parseAllowlistLines (n + 1) lines
      if line.isEmpty || line.head? == some '#' then (names, warnings)
      else
        match PackageName.parse (String.ofList line) with
        | some _ => (String.ofList line :: names, warnings)
        | none =>
            (names, s!"pkg-allowlist line {n}: invalid package name, skipped" :: warnings)

/-- `parse_allowlist`. -/
def parseAllowlist (body : List Char) : Allowlist × List String :=
  let (names, warnings) := parseAllowlistLines 1 (Text.lines body)
  (.restricted names, warnings)

/-- `load_allowlist`, on the outcome of reading the file: no file is permissive, and any other
failure keeps the helper from starting. -/
def loadAllowlist : Except IoError Bytes → Except IoError Allowlist
  | .ok file =>
      match Utf8.decode file with
      | none => .error .invalidData
      | some body => .ok (parseAllowlist body).1
  | .error .notFound => .ok .permissive
  | .error e => .error e

/-- A permitted name is a package name, and on the list when there is one. -/
theorem permits_iff {al : Allowlist} {name : String} :
    al.permits name = true ↔
      (PackageName.parse name).isSome ∧ ∀ names, al = .restricted names → name ∈ names := by
  unfold Allowlist.permits
  rcases PackageName.parse name with _ | p
  · simp
  · cases al with
    | permissive => simp
    | restricted names => simp

/-- Every name on the list is a line of the file, trimmed. -/
theorem mem_parseAllowlistLines {name : String} {lines : List (List Char)} {n : Nat}
    (h : name ∈ (parseAllowlistLines n lines).1) :
    ∃ raw ∈ lines, String.ofList (Text.trim raw) = name := by
  induction lines generalizing n with
  | nil => cases h
  | cons raw lines ih =>
      have hrest : name ∈ (parseAllowlistLines (n + 1) lines).1 →
          ∃ raw' ∈ raw :: lines, String.ofList (Text.trim raw') = name := by
        intro hmem
        obtain ⟨raw', hraw', heq⟩ := ih hmem
        exact ⟨raw', List.mem_cons_of_mem raw hraw', heq⟩
      simp only [parseAllowlistLines] at h
      split at h
      · exact hrest h
      · split at h
        · rcases List.mem_cons.mp h with rfl | h
          · exact ⟨raw, List.mem_cons_self, rfl⟩
          · exact hrest h
        · exact hrest h

/-- A list that was loaded from a file has lines of the file only. -/
theorem mem_loadAllowlist {file : Bytes} {al : Allowlist} {name : String}
    (hload : loadAllowlist (.ok file) = .ok al) (hpermits : al.permits name = true) :
    ∃ body, Utf8.decode file = some body ∧
      ∃ raw ∈ Text.lines body, String.ofList (Text.trim raw) = name := by
  unfold loadAllowlist at hload
  rcases hbody : Utf8.decode file with _ | body
  · simp [hbody] at hload
  · simp only [hbody, Except.ok.injEq] at hload
    have hmem := (permits_iff.mp hpermits).2 _ hload.symm
    exact ⟨body, rfl, mem_parseAllowlistLines hmem⟩

end Vaiexia.Privd
