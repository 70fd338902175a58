import Vaiexia.Lib.HashMap
import Vaiexia.Lib.Json

/-!
# Derived readers and writers

How serde's derived `Deserialize` reads the fields of a structure from the members of an object:
a name may not be repeated, a required field must be there, an optional field may be missing or
`null`, and other members are ignored.  Maps are read member by member, so that the last of
several members of one name stays.
-/

namespace Vaiexia.Lib

namespace Serde

/-! ## Fields -/

/-- The members of a structure: those of an object, or the elements of an array in the order of
the fields. -/
def fields (names : List String) : Json → Option (List (String × Json))
  | .obj members => some members
  | .arr xs => if xs.length = names.length then some (names.zip xs) else none
  | _ => none

/-- The value of a member that is there exactly once. -/
def unique (members : List (String × Json)) (key : String) : Option Json :=
  match members.filter fun m ↦ m.1 == key with
  | [(_, v)] => some v
  | _ => none

/-- A required field. -/
def required {α : Type} (parse : Json → Option α) (members : List (String × Json))
    (key : String) : Option α :=
  (unique members key).bind parse

/-- A value that may be `null`. -/
def nullable {α : Type} (parse : Json → Option α) : Json → Option (Option α)
  | .null => some none
  | v => (parse v).map some

/-- An optional field: `none` when it cannot be read, `some none` when it is not there. -/
def optional {α : Type} (parse : Json → Option α) (members : List (String × Json))
    (key : String) : Option (Option α) :=
  match members.filter fun m ↦ m.1 == key with
  | [] => some none
  | [(_, v)] => nullable parse v
  | _ => none

/-! ## Values -/

def bool : Json → Option Bool
  | .bool b => some b
  | _ => none

def uint64 (v : Json) : Option UInt64 := v.asU64.map UInt64.ofNat

/-- The elements of an array, each read by `parse`. -/
def list {α : Type} (parse : Json → Option α) : Json → Option (List α)
  | .arr xs => xs.mapM parse
  | _ => none

def ofNullable {α : Type} (write : α → Json) : Option α → Json
  | none => .null
  | some a => write a

@[simp] theorem uint64_uint (n : UInt64) : uint64 (.uint n.toNat) = some n := by
  have h : Json.asU64 (.uint n.toNat) = some n.toNat := if_pos n.toNat_lt
  rw [uint64, h, Option.map_some, UInt64.ofNat_toNat]

theorem list_map {α : Type} {parse : Json → Option α} {write : α → Json}
    (h : ∀ a, parse (write a) = some a) (as : List α) :
    list parse (.arr (as.map write)) = some as := by
  rw [list]
  induction as with
  | nil => rfl
  | cons a as ih =>
      rw [List.map_cons, List.mapM_cons, h a]
      simp [ih]

/-- An optional value reads back, if no written value is `null`. -/
theorem nullable_ofNullable {α : Type} {parse : Json → Option α} {write : α → Json}
    (h : ∀ a, parse (write a) = some a) (hnull : ∀ a, write a ≠ .null) (o : Option α) :
    nullable parse (ofNullable write o) = some o := by
  cases o with
  | none => rfl
  | some a =>
      unfold nullable ofNullable
      split
      · rename_i heq
        exact absurd heq (hnull a)
      · rw [h a, Option.map_some]

/-! ## Maps -/

section Map

variable {ν : Type}

/-- The members of an object, inserted one after another. -/
def mapFrom (parse : Json → Option ν) :
    List (String × Json) → HashMap String ν → Option (HashMap String ν)
  | [], m => some m
  | (key, v) :: members, m => (parse v).bind fun a ↦ mapFrom parse members (m.insert key a)

/-- A map, from an object. -/
def map (parse : Json → Option ν) : Json → Option (HashMap String ν)
  | .obj members => mapFrom parse members ∅
  | _ => none

/-- The object of a map. -/
def ofMap (write : ν → Json) (m : HashMap String ν) : Json :=
  .obj (m.entries.reverse.map fun e ↦ (e.1, write e.2))

theorem mapFrom_append (parse : Json → Option ν) (as bs : List (String × Json))
    (m : HashMap String ν) :
    mapFrom parse (as ++ bs) m = (mapFrom parse as m).bind (mapFrom parse bs) := by
  induction as generalizing m with
  | nil => rfl
  | cons a as ih =>
      obtain ⟨key, v⟩ := a
      rw [List.cons_append, mapFrom, mapFrom]
      rcases parse v with _ | x
      · rfl
      · exact ih _

/-- A map reads back. -/
theorem map_ofMap {parse : Json → Option ν} {write : ν → Json}
    (h : ∀ a, parse (write a) = some a) (m : HashMap String ν) :
    map parse (ofMap write m) = some m := by
  obtain ⟨entries, hnd⟩ := m
  simp only [map, ofMap]
  induction entries with
  | nil => rfl
  | cons e entries ih =>
      obtain ⟨key, a⟩ := e
      have hrest : entries.NodupKeys := List.NodupKeys.sublist (List.sublist_cons_self _ _) hnd
      rw [List.reverse_cons, List.map_append, mapFrom_append, ih hrest]
      simp only [List.map_cons, List.map_nil, Option.bind_some, mapFrom, h a]
      rw [← AList.mk_cons_eq_insert ⟨key, a⟩ entries hnd]

end Map

end Serde

end Vaiexia.Lib
