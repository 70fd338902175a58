import Vaiexia.Lib.Serde

/-!
# The protocol of the privileged helper

`PackageName`, `PrivRequest` and `PrivResponse` of `crates/vaiexia-priv-proto`, and the reading of
a request from a JSON document the way serde derives it for an internally tagged enumeration: an
object with exactly one `verb` and one value for each field, other members ignored, or an array
that starts with the verb.

A package name carries the proof that it is one; `PackageName.parse` is the only way to make it,
also for a name that comes from the wire.
-/

namespace Vaiexia.Privd

open Vaiexia.Lib Utf8

/-! ## Package names -/

/-- The bytes a package name is made of. -/
def isNameChar (c : Char) : Bool :=
  ('a' ≤ c && c ≤ 'z') || ('0' ≤ c && c ≤ '9') || c == '.' || c == '_' || c == '+' || c == '-'

/-- The grammar of package names: not empty, at most 128 bytes, no leading dash, and no other
characters than lower-case letters, digits and `.`, `_`, `+`, `-`. -/
structure PackageGrammar (cs : List Char) : Prop where
  ne_nil : cs ≠ []
  byteLen_le : byteLen cs ≤ 128
  head_ne_dash : cs.head? ≠ some '-'
  all : cs.all isNameChar = true

instance (cs : List Char) : Decidable (PackageGrammar cs) :=
  decidable_of_iff
    (cs ≠ [] ∧ byteLen cs ≤ 128 ∧ cs.head? ≠ some '-' ∧ cs.all isNameChar = true)
    ⟨fun ⟨h₁, h₂, h₃, h₄⟩ ↦ ⟨h₁, h₂, h₃, h₄⟩, fun ⟨h₁, h₂, h₃, h₄⟩ ↦ ⟨h₁, h₂, h₃, h₄⟩⟩

/-- `PackageName`. -/
structure PackageName where
  text : String
  grammar : PackageGrammar text.toList
deriving DecidableEq

/-- `PackageName::parse`. -/
def PackageName.parse (s : String) : Option PackageName :=
  if h : PackageGrammar s.toList then some ⟨s, h⟩ else none

theorem PackageName.parse_eq_some {s : String} {name : PackageName}
    (h : PackageName.parse s = some name) : name.text = s := by
  unfold PackageName.parse at h
  split at h
  · rw [← Option.some.inj h]
  · cases h

/-- Parsing a package name again gives it back. -/
@[simp] theorem PackageName.parse_text (name : PackageName) :
    PackageName.parse name.text = some name := by
  rw [PackageName.parse, dif_pos name.grammar]

/-- No package name is an option, so none is the separator of options. -/
theorem PackageName.text_ne_separator (name : PackageName) : name.text ≠ "--" := by
  intro h
  have hhead := name.grammar.head_ne_dash
  rw [h] at hhead
  exact hhead rfl

/-! ## Requests and responses -/

/-- `PrivRequest`. -/
inductive PrivRequest where
  | ping
  | protoVersion
  | pkgInstall (name : PackageName)
  | pkgRemove (name : PackageName)
  | pkgRefreshIndex
deriving DecidableEq

/-- `PrivResponse`. -/
inductive PrivResponse where
  | pong
  | protoVersion (version : Nat)
  | ok
  | error (message : String)
deriving DecidableEq

/-- `PROTO_VERSION`. -/
def protoVersion : Nat := 1

/-! ## Reading a request -/

/-- The `Deserialize` of `PackageName`: a string that parses. -/
def PackageName.fromJson (v : Json) : Option PackageName := v.asStr.bind PackageName.parse

/-- The content of a request next to its verb, when the document is an object. -/
def PrivRequest.fromMembers (verb : String) (members : List (String × Json)) :
    Option PrivRequest :=
  match verb with
  | "ping" => some .ping
  | "proto_version" => some .protoVersion
  | "pkg_install" => (Serde.required PackageName.fromJson members "name").map .pkgInstall
  | "pkg_remove" => (Serde.required PackageName.fromJson members "name").map .pkgRemove
  | "pkg_refresh_index" => some .pkgRefreshIndex
  | _ => none

/-- The content of a request after its verb, when the document is an array. -/
def PrivRequest.fromElements (verb : String) (elements : List Json) : Option PrivRequest :=
  match verb, elements with
  | "ping", [] => some .ping
  | "proto_version", [] => some .protoVersion
  | "pkg_install", [v] => (PackageName.fromJson v).map .pkgInstall
  | "pkg_remove", [v] => (PackageName.fromJson v).map .pkgRemove
  | "pkg_refresh_index", [] => some .pkgRefreshIndex
  | _, _ => none

/-- The `Deserialize` of `PrivRequest`. -/
def PrivRequest.fromJson : Json → Option PrivRequest
  | .obj members =>
      (Serde.unique members "verb").bind fun v ↦
        v.asStr.bind fun verb ↦ PrivRequest.fromMembers verb members
  | .arr (v :: elements) => v.asStr.bind fun verb ↦ PrivRequest.fromElements verb elements
  | _ => none

end Vaiexia.Privd
