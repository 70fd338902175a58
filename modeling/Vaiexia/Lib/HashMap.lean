import Mathlib.Data.List.AList

/-!
# Hash maps

`HashMap` is Mathlib's association list without repeated keys, at a constant type of values, with
the operations of Rust's `HashMap` that it lacks: `retain`, `values` and lookup as `get_mut` uses
it, and `map` on the values.  The order of the entries, which a hash map does not promise, is that
of insertion, the newest first.
-/

namespace Vaiexia.Lib

/-- A map from `κ` to `ν`. -/
abbrev HashMap (κ ν : Type) := AList fun _ : κ ↦ ν

namespace HashMap

variable {κ ν : Type}

/-- `HashMap::values`. -/
def values (m : HashMap κ ν) : List ν := m.entries.map Sigma.snd

/-- `HashMap::is_empty`. -/
def isEmpty (m : HashMap κ ν) : Bool := m.entries.isEmpty

/-- `HashMap::len`. -/
def len (m : HashMap κ ν) : Nat := m.entries.length

/-- `HashMap::retain`. -/
def retain (p : κ → ν → Bool) (m : HashMap κ ν) : HashMap κ ν where
  entries := m.entries.filter fun e ↦ p e.1 e.2
  nodupKeys := List.NodupKeys.sublist List.filter_sublist m.nodupKeys

/-- The same key, with another value. -/
def mapEntry {μ : Type} (f : ν → μ) : (Sigma fun _ : κ ↦ ν) → Sigma fun _ : κ ↦ μ :=
  .map id fun _ ↦ f

/-- The same keys, with other values. -/
def map {μ : Type} (f : ν → μ) (m : HashMap κ ν) : HashMap κ μ where
  entries := m.entries.map (mapEntry f)
  nodupKeys := m.nodupKeys.map₂ (fun _ ↦ f) m.entries

@[simp] theorem isEmpty_empty : isEmpty (∅ : HashMap κ ν) = true := rfl

theorem isEmpty_iff {m : HashMap κ ν} : m.isEmpty = true ↔ m = ∅ := by
  rw [isEmpty, List.isEmpty_iff]
  exact ⟨fun h ↦ AList.ext h, fun h ↦ by rw [h]; rfl⟩

/-- A map that keeps all its entries is the same map. -/
theorem retain_eq_self {p : κ → ν → Bool} {m : HashMap κ ν}
    (h : ∀ e ∈ m.entries, p e.1 e.2 = true) : m.retain p = m :=
  AList.ext (List.filter_eq_self.mpr h)

variable [DecidableEq κ]

/-- What `retain` leaves. -/
theorem mem_lookup_retain {p : κ → ν → Bool} {m : HashMap κ ν} {k : κ} {v : ν} :
    v ∈ (m.retain p).lookup k ↔ v ∈ m.lookup k ∧ p k v = true := by
  rw [AList.mem_lookup_iff, AList.mem_lookup_iff]
  exact List.mem_filter

/-- The lookup after it. -/
theorem lookup_retain (p : κ → ν → Bool) (m : HashMap κ ν) (k : κ) :
    (m.retain p).lookup k = (m.lookup k).filter (p k) := by
  refine Option.ext fun v ↦ ?_
  rw [← Option.mem_def, mem_lookup_retain, Option.filter_eq_some_iff]
  exact Iff.rfl

/-- What an insertion leaves. -/
theorem lookup_insert_eq (k k' : κ) (v : ν) (m : HashMap κ ν) :
    AList.lookup k' (AList.insert k v m) = if k' = k then some v else AList.lookup k' m := by
  split
  · rename_i h
    subst h
    exact AList.lookup_insert m
  · rename_i h
    exact AList.lookup_insert_ne h

/-- An erasure brings nothing in. -/
theorem lookup_of_erase {m : HashMap κ ν} {k k' : κ} {v : ν}
    (h : AList.lookup k' (AList.erase k m) = some v) : AList.lookup k' m = some v := by
  rcases eq_or_ne k' k with rfl | hne
  · rw [AList.lookup_erase] at h
    cases h
  · rwa [AList.lookup_erase_ne hne] at h

/-- Insertions one after another. -/
def insertAll (es : List (κ × ν)) (m : HashMap κ ν) : HashMap κ ν :=
  es.foldl (fun m e ↦ m.insert e.1 e.2) m

theorem insertAll_append (es es' : List (κ × ν)) (m : HashMap κ ν) :
    insertAll (es ++ es') m = insertAll es' (insertAll es m) := List.foldl_append

/-- Insertions leave what the last one of the key put there, or what was there. -/
theorem lookup_insertAll (es : List (κ × ν)) (k : κ) (m : HashMap κ ν) :
    AList.lookup k (insertAll es m) = (es.reverse.lookup k).or (AList.lookup k m) := by
  induction es generalizing m with
  | nil => rfl
  | cons e es ih =>
      rw [insertAll, List.foldl_cons, ← insertAll, ih, lookup_insert_eq, List.reverse_cons,
        List.lookup_append, Option.or_assoc]
      congr 1
      obtain ⟨key, v⟩ := e
      rw [List.lookup_cons]
      by_cases hkey : k = key
      · simp [hkey]
      · have hbeq : (k == key) = false := beq_eq_false_iff_ne.mpr hkey
        simp [hkey, hbeq]

section Map

variable {μ : Type} (f : ν → μ)

/-- Lookup goes with `map`. -/
@[simp] theorem lookup_map (k : κ) (m : HashMap κ ν) :
    AList.lookup k (m.map f) = (AList.lookup k m).map f :=
  List.dlookup_map₂ k

/-- Two maps that `f` makes equal have the same keys. -/
theorem lookup_cases {f : ν → μ} {m m' : HashMap κ ν} (h : m.map f = m'.map f) (k : κ) :
    (AList.lookup k m = none ∧ AList.lookup k m' = none) ∨
      ∃ v v', AList.lookup k m = some v ∧ AList.lookup k m' = some v' ∧ f v = f v' := by
  have hlookup : (AList.lookup k m).map f = (AList.lookup k m').map f := by
    rw [← lookup_map, h, lookup_map]
  cases hk : AList.lookup k m with
  | none =>
      rw [hk] at hlookup
      exact .inl ⟨rfl, Option.map_eq_none_iff.mp hlookup.symm⟩
  | some v =>
      rw [hk] at hlookup
      obtain ⟨v', hk', hv⟩ := Option.map_eq_some_iff.mp hlookup.symm
      exact .inr ⟨v, v', rfl, hk', hv.symm⟩

/-- Insertion goes with `map`. -/
@[simp] theorem map_insert (k : κ) (v : ν) (m : HashMap κ ν) :
    map f (AList.insert k v m) = AList.insert k (f v) (map f m) := by
  have herase : ∀ es : List (Sigma fun _ : κ ↦ ν),
      (es.kerase k).map (mapEntry f) = (es.map (mapEntry f)).kerase k := by
    intro es
    induction es with
    | nil => rfl
    | cons e es ih =>
        by_cases hkey : k = e.1
        · have hentry : k = (mapEntry f e).1 := hkey
          rw [List.map_cons, List.kerase_cons_eq hkey, List.kerase_cons_eq hentry]
        · have hentry : k ≠ (mapEntry f e).1 := hkey
          rw [List.map_cons, List.kerase_cons_ne hkey, List.kerase_cons_ne hentry, List.map_cons,
            ih]
  apply AList.ext
  show List.map (mapEntry f) (⟨k, v⟩ :: m.entries.kerase k) =
    ⟨k, f v⟩ :: (m.entries.map (mapEntry f)).kerase k
  rw [List.map_cons, herase]
  rfl

end Map

end HashMap

end Vaiexia.Lib
