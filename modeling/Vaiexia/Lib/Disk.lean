import Mathlib.Logic.Function.Basic
import Vaiexia.Lib.Utf8

/-!
# Files by name

What a program that appends to one file and renames files can do to a directory, on contents as
byte strings.  The directory has one open append handle; it follows its file when that file is
renamed, and writes to no name once the file has been removed or replaced.

Every operation takes a flag that makes it fail, and then has no effect.  Removing or renaming a
file that is not there fails as well.
-/

namespace Vaiexia.Lib

/-- Why a file operation failed. -/
inductive IoError where
  | notFound
  | invalidData
  | failed
deriving DecidableEq, Repr

/-- The files of a directory, and the name of the file behind the append handle. -/
structure Disk (P : Type) where
  files : P → Option Bytes
  handle : Option P

namespace Disk

variable {P : Type}

/-- A directory without files. -/
def empty : Disk P where
  files := fun _ ↦ none
  handle := none

variable [DecidableEq P]

/-- `fs::remove_file`. -/
def remove (fault : Bool) (p : P) (d : Disk P) : Disk P × Except IoError Unit :=
  if fault then (d, .error .failed)
  else
    match d.files p with
    | none => (d, .error .notFound)
    | some _ =>
        ({ files := Function.update d.files p none
           handle := if d.handle = some p then none else d.handle }, .ok ())

/-- `fs::rename`, which replaces a file that has the new name. -/
def rename (fault : Bool) (p q : P) (d : Disk P) : Disk P × Except IoError Unit :=
  if fault then (d, .error .failed)
  else
    match d.files p with
    | none => (d, .error .notFound)
    | some bs =>
        ({ files := Function.update (Function.update d.files p none) q (some bs)
           handle :=
            if d.handle = some p then some q
            else if d.handle = some q then none
            else d.handle }, .ok ())

/-- Opening a file for appending, creating it when it is not there. -/
def openAppend (fault : Bool) (p : P) (d : Disk P) : Disk P × Except IoError Unit :=
  if fault then (d, .error .failed)
  else
    ({ files := Function.update d.files p (some ((d.files p).getD []))
       handle := some p }, .ok ())

/-- A write through the append handle. -/
def append (bs : Bytes) (d : Disk P) : Disk P :=
  match d.handle with
  | none => d
  | some p => { d with files := Function.update d.files p ((d.files p).map (· ++ bs)) }

/-! ## What each operation leaves -/

@[simp] theorem remove_fault (p : P) (d : Disk P) : d.remove true p = (d, .error .failed) := rfl

@[simp] theorem rename_fault (p q : P) (d : Disk P) :
    d.rename true p q = (d, .error .failed) := rfl

@[simp] theorem openAppend_fault (p : P) (d : Disk P) :
    d.openAppend true p = (d, .error .failed) := rfl

theorem rename_of_none {p q : P} {d : Disk P} (fault : Bool) (h : d.files p = none) :
    ∃ e, d.rename fault p q = (d, .error e) := by
  cases fault with
  | true => exact ⟨_, rfl⟩
  | false => exact ⟨.notFound, by simp [rename, h]⟩

/-- Removing a file, or failing to: only that name can lose its file. -/
theorem files_remove (fault : Bool) (p : P) (d : Disk P) :
    (d.remove fault p).1.files = if fault then d.files else Function.update d.files p none := by
  cases fault with
  | true => rfl
  | false =>
      cases h : d.files p with
      | none =>
          have hsame : Function.update d.files p none = d.files := by
            rw [← h, Function.update_eq_self]
          rw [if_neg (by decide), hsame, remove, if_neg (by decide), h]
      | some bs => simp [remove, h]

/-- The handle stays on every file but the removed one. -/
theorem handle_remove {fault : Bool} {p q : P} {d : Disk P} (h : d.handle = some q)
    (hq : q ≠ p) : (d.remove fault p).1.handle = some q := by
  cases fault with
  | true => exact h
  | false =>
      cases hp : d.files p with
      | none => simp [remove, hp, h]
      | some bs => simp [remove, hp, h, hq]

/-- Renaming moves the file if it is there and the operation does not fail. -/
theorem files_rename (fault : Bool) (p q : P) (d : Disk P) :
    (d.rename fault p q).1.files =
      if fault = false ∧ (d.files p).isSome then
        Function.update (Function.update d.files p none) q (d.files p)
      else d.files := by
  cases fault with
  | true => rfl
  | false =>
      cases h : d.files p with
      | none => simp [rename, h]
      | some bs => simp [rename, h]

/-- The handle stays on a file that is neither renamed nor replaced. -/
theorem handle_rename {fault : Bool} {p q r : P} {d : Disk P} (h : d.handle = some r)
    (hp : r ≠ p) (hq : r ≠ q) : (d.rename fault p q).1.handle = some r := by
  cases fault with
  | true => exact h
  | false =>
      cases hf : d.files p with
      | none => simp [rename, hf, h]
      | some bs => simp [rename, hf, h, hp, hq]

theorem rename_ok_iff {fault : Bool} {p q : P} {d : Disk P} :
    (d.rename fault p q).2 = .ok () ↔ fault = false ∧ (d.files p).isSome := by
  cases fault with
  | true => simp
  | false => cases h : d.files p <;> simp [rename, h]

/-- A write reaches the file behind the handle. -/
theorem files_append {p : P} {d : Disk P} (bs : Bytes) (h : d.handle = some p) :
    (d.append bs).files = Function.update d.files p ((d.files p).map (· ++ bs)) := by
  simp [append, h]

@[simp] theorem handle_append (bs : Bytes) (d : Disk P) : (d.append bs).handle = d.handle := by
  unfold append
  split <;> simp_all

/-- A write makes no file and removes none. -/
@[simp] theorem isSome_append (bs : Bytes) (d : Disk P) (q : P) :
    ((d.append bs).files q).isSome = (d.files q).isSome := by
  obtain ⟨files, handle⟩ := d
  cases handle with
  | none => rfl
  | some p =>
      rcases eq_or_ne q p with rfl | hne
      · simp [append]
      · simp [append, Function.update_of_ne hne]

/-- Two writes are one. -/
@[simp] theorem append_append (bs bs' : Bytes) (d : Disk P) :
    (d.append bs).append bs' = d.append (bs ++ bs') := by
  obtain ⟨files, handle⟩ := d
  cases handle with
  | none => rfl
  | some p => simp [append, Function.comp_def]

/-- A write of nothing changes nothing. -/
@[simp] theorem append_nil (d : Disk P) : d.append [] = d := by
  obtain ⟨files, handle⟩ := d
  cases handle with
  | none => rfl
  | some p => simp [append]

end Disk

end Vaiexia.Lib
