import Mathlib.Logic.Relation
import Vaiexia.Auth.Store
import Vaiexia.Lib.JsonLayout

/-!
# The identity file

`write_atomic` and `FileStore::open` of `crates/vaiexia-server/src/auth/store.rs` on the bytes of
the files: a snapshot is written as pretty JSON to a temporary file, in any number of writes, and
the temporary file is renamed to `identity.json`.  A call can fail, and the daemon can stop, between
any two writes; a temporary file that is left over stays.

`FileStore` has one document and says that persisting happens or has no effect.  `identity_file` is
that of the files: what is there can always be read, and it is a snapshot that was written whole.
-/

namespace Vaiexia.Auth

open Vaiexia.Lib

/-- `serde_json::to_vec_pretty`. -/
def toVecPretty (v : Json) : Bytes := Utf8.encode (Json.Layout.pretty.render 0 v)

/-! ## The format -/

section Readable

variable {d : Nat}

theorem readable_str (text : String) : (Json.str text).ReadableIn d := by
  cases d <;> trivial

theorem readable_strings (texts : List String) : (strings texts).ReadableIn (d + 1) := by
  intro x hx
  obtain ⟨text, -, rfl⟩ := List.mem_map.mp hx
  exact readable_str text

theorem readable_uint (n : UInt64) : (Json.uint n.toNat).ReadableIn d := by
  have hlt : n.toNat < 2 ^ 64 := n.toNat_lt
  cases d <;> exact hlt

theorem readable_time (t : Option UInt64) :
    (Serde.ofNullable (fun t ↦ .uint t.toNat) t).ReadableIn d := by
  cases t with
  | none => cases d <;> trivial
  | some t => exact readable_uint t

theorem CapabilityRecord.readable (rec : CapabilityRecord) : rec.toJson.ReadableIn (d + 2) := by
  intro m hm
  simp only [List.mem_cons, List.not_mem_nil, or_false] at hm
  rcases hm with rfl | rfl | rfl | rfl | rfl | rfl | rfl | rfl | rfl
  · exact readable_str _
  · exact readable_str _
  · exact readable_str _
  · exact readable_strings _
  · exact readable_str _
  · exact readable_uint _
  · exact readable_time _
  · trivial
  · exact readable_time _

theorem AccountRecord.readable (rec : AccountRecord) : rec.toJson.ReadableIn (d + 2) := by
  intro m hm
  simp only [List.mem_cons, List.not_mem_nil, or_false] at hm
  rcases hm with rfl | rfl | rfl | rfl
  · exact readable_str _
  · exact readable_str _
  · exact readable_str _
  · exact readable_strings _

theorem readable_ofMap {ν : Type} {write : ν → Json} (h : ∀ a, (write a).ReadableIn d)
    (m : HashMap String ν) : (Serde.ofMap write m).ReadableIn (d + 1) := by
  intro member hmember
  obtain ⟨e, -, rfl⟩ := List.mem_map.mp hmember
  exact h e.2

/-- A snapshot is within the limits of a reader. -/
theorem IdentitySnapshot.readable (s : IdentitySnapshot) : s.toJson.Readable := by
  intro m hm
  simp only [List.mem_cons, List.not_mem_nil, or_false] at hm
  rcases hm with rfl | rfl
  · exact readable_ofMap CapabilityRecord.readable _
  · exact readable_ofMap AccountRecord.readable _

end Readable

/-- A reader that gives back what the pretty writer wrote. -/
def ReadsPretty (fromStr : List Char → Option Json) : Prop :=
  ∀ v : Json, v.Readable → fromStr (Json.Layout.pretty.render 0 v) = some v

theorem readsPretty_parse : ReadsPretty Json.parse := fun _ ↦ Json.Layout.pretty.parse_render

/-! ## The files -/

/-- `identity.json`. -/
def identityName : String := "identity.json"

/-- The temporary file of a call. -/
def tmpName (nanos : Nat) : String := ".identity.tmp." ++ Nat.repr nanos

theorem tmpName_ne (nanos : Nat) : tmpName nanos ≠ identityName := by
  intro h
  have hhead := congrArg (fun s ↦ s.toList.head?) h
  simp [tmpName, identityName] at hhead

section Open

variable (fromStr : List Char → Option Json)

/-- The document in a file. -/
def document (file : Option Bytes) : Option Json :=
  file.bind fun data ↦ (Utf8.decode data).bind fromStr

/-- `FileStore::open`, on the bytes of the file. -/
def openBytes : Option Bytes → Option IdentitySnapshot
  | none => some .default
  | some data => (document fromStr (some data)).bind IdentitySnapshot.fromJson

variable {fromStr}

/-- The document that was written is there. -/
theorem document_toVecPretty (hread : ReadsPretty fromStr) (s : IdentitySnapshot) :
    document fromStr (some (toVecPretty s.toJson)) = some s.toJson := by
  rw [document, Option.bind_some, toVecPretty, Utf8.decode_encode, Option.bind_some,
    hread _ s.readable]

/-- What was written is read back. -/
theorem openBytes_toVecPretty (hread : ReadsPretty fromStr) (s : IdentitySnapshot) :
    openBytes fromStr (some (toVecPretty s.toJson)) = some s := by
  rw [openBytes, document_toVecPretty hread, Option.bind_some, IdentitySnapshot.fromJson_toJson]

/-- A file that opens holds a store that is in step with it. -/
theorem load_document {file : Option Bytes} {snap : IdentitySnapshot}
    (h : openBytes fromStr file = some snap) :
    FileStore.load (document fromStr file) = some snap := by
  cases file with
  | none => exact h
  | some data =>
      obtain ⟨doc, hdoc, hsnap⟩ := Option.bind_eq_some_iff.mp h
      rw [hdoc]
      exact hsnap

end Open

/-! ## Runs -/

/-- How far `mutate` has come. -/
inductive WritePhase where
  | idle
  /-- The temporary file has all but the rest. -/
  | writing (change : Change) (next : IdentitySnapshot) (tmp : String) (rest : Bytes)
  | renamed (next : IdentitySnapshot)

/-- The files, the published snapshot and the call in progress; and the changes whose files were
renamed, which is not part of the program. -/
structure IdentityDir where
  files : String → Option Bytes
  snap : IdentitySnapshot
  phase : WritePhase
  renames : List Change

namespace IdentityDir

/-- A store that was opened. -/
def opened (files : String → Option Bytes) (snap : IdentitySnapshot) : IdentityDir where
  files := files
  snap := snap
  phase := .idle
  renames := []

/-- The snapshot that the call in progress will have published, if it only has to publish. -/
def settled (s : IdentityDir) : IdentitySnapshot :=
  match s.phase with
  | .renamed next => next
  | _ => s.snap

/-- The store of the model one level up. -/
def store (fromStr : List Char → Option Json) (s : IdentityDir) : FileStore where
  file := document fromStr (s.files identityName)
  snap := s.settled
  pendingTouch := ∅

/-- One step of `mutate` and `write_atomic`, or the end of the daemon and its next start. -/
inductive Step (fromStr : List Char → Option Json) : IdentityDir → IdentityDir → Prop
  | begin {s : IdentityDir} {change : Change} {next : IdentitySnapshot} {n : Nat}
      (hidle : s.phase = .idle) (happly : change.apply s.snap = .ok (next, n)) (nanos : Nat) :
      Step fromStr s { s with
        files := Function.update s.files (tmpName nanos) (some [])
        phase := .writing change next (tmpName nanos) (toVecPretty next.toJson) }
  | write {s : IdentityDir} {change : Change} {next : IdentitySnapshot} {tmp : String}
      {rest : Bytes} (hwriting : s.phase = .writing change next tmp rest) (k : Nat) :
      Step fromStr s { s with
        files := Function.update s.files tmp ((s.files tmp).map (· ++ rest.take k))
        phase := .writing change next tmp (rest.drop k) }
  | rename {s : IdentityDir} {change : Change} {next : IdentitySnapshot} {tmp : String}
      (hwriting : s.phase = .writing change next tmp []) :
      Step fromStr s { s with
        files := Function.update (Function.update s.files identityName (s.files tmp)) tmp none
        phase := .renamed next
        renames := s.renames ++ [change] }
  | publish {s : IdentityDir} {next : IdentitySnapshot} (hrenamed : s.phase = .renamed next) :
      Step fromStr s { s with snap := next, phase := .idle }
  /-- An error before the file is renamed. -/
  | fail {s : IdentityDir} {change : Change} {next : IdentitySnapshot} {tmp : String}
      {rest : Bytes} (hwriting : s.phase = .writing change next tmp rest) :
      Step fromStr s { s with phase := .idle }
  /-- The daemon stops, wherever it is, and opens the file at its next start. -/
  | restart {s : IdentityDir} {snap : IdentitySnapshot}
      (hopen : openBytes fromStr (s.files identityName) = some snap) :
      Step fromStr s { s with snap, phase := .idle }

/-- Any number of steps. -/
abbrev Run (fromStr : List Char → Option Json) : IdentityDir → IdentityDir → Prop :=
  Relation.ReflTransGen (Step fromStr)

/-- One call of `mutate` after another, each with success. -/
inductive Mutated (st : FileStore) : List Change → FileStore → Prop
  | nil : Mutated st [] st
  | snoc {st' st'' : FileStore} {changes : List Change} {change : Change} {n : Nat}
      (h : Mutated st changes st') (hmutate : st'.mutate none change = (st'', .ok n)) :
      Mutated st (changes ++ [change]) st''

/-- The invariant: the calls that got as far as the rename have been made on the store one level up,
the file opens to what it has, and the temporary file has what was written of the next one. -/
structure Inv (fromStr : List Char → Option Json) (s₀ s : IdentityDir) : Prop where
  mutated : Mutated (s₀.store fromStr) s.renames (s.store fromStr)
  opens : openBytes fromStr (s.files identityName) = some s.settled
  whole : s.renames = [] ∧ s.files identityName = s₀.files identityName ∨
    s.files identityName = some (toVecPretty s.settled.toJson)
  writing : ∀ change next tmp rest, s.phase = .writing change next tmp rest →
    tmp ≠ identityName ∧ (∃ n, change.apply s.snap = .ok (next, n)) ∧
      ∃ written, s.files tmp = some written ∧ written ++ rest = toVecPretty next.toJson

variable {fromStr : List Char → Option Json} {s₀ s s' : IdentityDir}

/-- A step that touches neither the identity file nor the settled snapshot. -/
theorem Inv.keep (h : Inv fromStr s₀ s) (hfile : s'.files identityName = s.files identityName)
    (hsettled : s'.settled = s.settled) (hrenames : s'.renames = s.renames)
    (hwriting : ∀ change next tmp rest, s'.phase = .writing change next tmp rest →
      tmp ≠ identityName ∧ (∃ n, change.apply s'.snap = .ok (next, n)) ∧
        ∃ written, s'.files tmp = some written ∧ written ++ rest = toVecPretty next.toJson) :
    Inv fromStr s₀ s' where
  mutated := by
    have hstore : s'.store fromStr = s.store fromStr := by rw [store, store, hfile, hsettled]
    rw [hrenames, hstore]
    exact h.mutated
  opens := by
    rw [hfile, hsettled]
    exact h.opens
  whole := by
    rw [hrenames, hfile, hsettled]
    exact h.whole
  writing := hwriting

/-- **Steps keep the invariant.** -/
theorem Step.inv (hread : ReadsPretty fromStr) (h : Inv fromStr s₀ s) (hstep : Step fromStr s s') :
    Inv fromStr s₀ s' := by
  cases hstep with
  | @begin change next n hidle happly nanos =>
      have hsettled : s.settled = s.snap := by rw [settled, hidle]
      refine h.keep ?_ hsettled.symm rfl ?_
      · exact Function.update_of_ne (tmpName_ne nanos).symm (some []) s.files
      · rintro _ _ _ _ ⟨⟩
        exact ⟨tmpName_ne nanos, ⟨n, happly⟩, [], Function.update_self _ _ _, List.nil_append _⟩
  | @write change next tmp rest hwriting k =>
      have hsettled : s.settled = s.snap := by rw [settled, hwriting]
      obtain ⟨htmp, happly, written, hwritten, hall⟩ := h.writing _ _ _ _ hwriting
      refine h.keep ?_ hsettled.symm rfl ?_
      · exact Function.update_of_ne htmp.symm ((s.files tmp).map (· ++ rest.take k)) s.files
      · rintro _ _ _ _ ⟨⟩
        refine ⟨htmp, happly, written ++ rest.take k, ?_, ?_⟩
        · simp [hwritten]
        · rw [List.append_assoc, List.take_append_drop, hall]
  | @rename change next tmp hwriting =>
      have hsettled : s.settled = s.snap := by rw [settled, hwriting]
      obtain ⟨htmp, ⟨n, happly⟩, written, hwritten, hall⟩ := h.writing _ _ _ _ hwriting
      rw [List.append_nil] at hall
      have hfile : Function.update (Function.update s.files identityName (s.files tmp)) tmp none
          identityName = some (toVecPretty next.toJson) := by
        rw [Function.update_of_ne htmp.symm, Function.update_self, hwritten, hall]
      have hmutate : (s.store fromStr).mutate none change =
          ({ file := some next.toJson, snap := next, pendingTouch := ∅ }, .ok n) := by
        simp only [FileStore.mutate, store, hsettled, happly, FileStore.persist]
      refine ⟨?_, ?_, .inr hfile, fun _ _ _ _ hphase ↦ by cases hphase⟩
      · have hmutated := Mutated.snoc h.mutated hmutate
        rw [← document_toVecPretty hread next, ← hfile] at hmutated
        exact hmutated
      · exact (congrArg _ hfile).trans (openBytes_toVecPretty hread next)
  | @publish next hrenamed =>
      have hsettled : s.settled = next := by rw [settled, hrenamed]
      exact h.keep rfl hsettled.symm rfl fun _ _ _ _ hphase ↦ by cases hphase
  | @fail change next tmp rest hwriting =>
      have hsettled : s.settled = s.snap := by rw [settled, hwriting]
      exact h.keep rfl hsettled.symm rfl fun _ _ _ _ hphase ↦ by cases hphase
  | @restart snap hopen =>
      have hsettled : s.settled = snap := Option.some.inj (h.opens.symm.trans hopen)
      exact h.keep rfl hsettled.symm rfl fun _ _ _ _ hphase ↦ by cases hphase

theorem Run.inv (hread : ReadsPretty fromStr) (h : Inv fromStr s₀ s) (hrun : Run fromStr s s') :
    Inv fromStr s₀ s' := by
  induction hrun with
  | refl => exact h
  | tail _ hstep ih => exact hstep.inv hread ih

/-- A store that was opened has done nothing yet. -/
theorem inv_opened {files : String → Option Bytes} {snap : IdentitySnapshot}
    (hopen : openBytes fromStr (files identityName) = some snap) :
    Inv fromStr (opened files snap) (opened files snap) where
  mutated := .nil
  opens := hopen
  whole := .inl ⟨rfl, rfl⟩
  writing := fun _ _ _ _ hphase ↦ by cases hphase

/-- **The identity file is never lost and never half written.**  In every run of calls, with the
writes split anywhere, errors anywhere before the rename and the daemon stopped anywhere, the file
is as it was found or a whole snapshot; it opens; and it opens to the snapshot that `mutate` makes
of the first one with the changes that were renamed, which is the published one, or will be when
the call in progress has done its last step. -/
theorem identity_file (hread : ReadsPretty fromStr) {files : String → Option Bytes}
    {snap : IdentitySnapshot} (hopen : openBytes fromStr (files identityName) = some snap)
    (hrun : Run fromStr (opened files snap) s) :
    ∃ st : FileStore,
      Mutated { file := document fromStr (files identityName), snap, pendingTouch := ∅ }
        s.renames st ∧
      st.InSync ∧ st.file = document fromStr (s.files identityName) ∧
      openBytes fromStr (s.files identityName) = some st.snap ∧
      (s.snap = st.snap ∨ s.phase = .renamed st.snap) ∧
      (s.renames = [] ∧ s.files identityName = files identityName ∨
        s.files identityName = some (toVecPretty st.snap.toJson)) := by
  have hinv := Run.inv hread (inv_opened hopen) hrun
  refine ⟨s.store fromStr, hinv.mutated, load_document hinv.opens, rfl, hinv.opens, ?_, hinv.whole⟩
  unfold store settled
  split
  · rename_i next hphase
    exact .inr hphase
  · exact .inl rfl

/-- The daemon stops after the first three bytes of a call, which is repeated. -/
theorem identity_file_stopped :
    ∃ s : IdentityDir, s.renames = [.addAccount ⟨"admin", "", "user:admin", []⟩] ∧
      s.snap.accounts.lookup "admin" = some ⟨"admin", "", "user:admin", []⟩ ∧
      openBytes Json.parse (s.files identityName) = some s.snap := by
  generalize hrec : (⟨"admin", "", "user:admin", []⟩ : AccountRecord) = rec
  have hopen : openBytes Json.parse none = some .default := rfl
  have happly : Change.apply (.addAccount rec) .default =
      .ok (IdentitySnapshot.default.addAccount rec, 0) := rfl
  have hbegin : Run Json.parse (opened (fun _ ↦ none) .default) _ := .single (.begin rfl happly 7)
  have hthree := hbegin.tail (.write rfl 3)
  have hstopped := hthree.tail
    (.restart (Run.inv readsPretty_parse (inv_opened hopen) hthree).opens)
  have hwritten := (hstopped.tail (.begin rfl happly 7)).tail
    (.write rfl (toVecPretty (IdentitySnapshot.default.addAccount rec).toJson).length)
  have hrun := (hwritten.tail (.rename (by rw [List.drop_length]))).tail (.publish rfl)
  obtain ⟨st, -, -, -, hst, hsnap, -⟩ := identity_file readsPretty_parse hopen hrun
  rcases hsnap with hsnap | hphase
  · exact ⟨_, rfl, by subst hrec; rfl, hst.trans (congrArg some hsnap.symm)⟩
  · cases hphase

end IdentityDir

end Vaiexia.Auth
