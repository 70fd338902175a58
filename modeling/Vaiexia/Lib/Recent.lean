import Mathlib.Data.List.DropRight
import Vaiexia.Lib.HashMap

/-!
# The most recent entries

A map that keeps the last `n` entries it was given, with the list of their keys in the order in
which they came: a new entry evicts the oldest one when the list is full.  For keys that never come
twice, `Holds` says of which history a map and its order are the last `n` entries, and
`Holds.push` that an entry extends the history.
-/

namespace Vaiexia.Lib

/-- A map, and its keys with the oldest first. -/
structure Recent (κ ν : Type) where
  order : List κ
  map : HashMap κ ν

namespace Recent

variable {κ ν : Type} [DecidableEq κ]

/-- Without entries. -/
def empty : Recent κ ν where
  order := []
  map := ∅

/-- The oldest entry goes, if there are `n`. -/
def evict (n : Nat) (r : Recent κ ν) : Recent κ ν :=
  if n ≤ r.order.length then
    match r.order with
    | [] => r
    | k :: order => { order, map := r.map.erase k }
  else r

/-- A new entry. -/
def push (n : Nat) (k : κ) (v : ν) (r : Recent κ ν) : Recent κ ν where
  order := (r.evict n).order ++ [k]
  map := (r.evict n).map.insert k v

/-- The map has the last `n` entries of a history in which no key comes twice. -/
structure Holds (n : Nat) (history : List (κ × ν)) (r : Recent κ ν) : Prop where
  nodup : (history.map Prod.fst).Nodup
  order : r.order = (history.rtake n).map Prod.fst
  lookup : ∀ k v, r.map.lookup k = some v ↔ (k, v) ∈ history.rtake n

omit [DecidableEq κ] in
theorem rtake_suffix (n : Nat) (history : List (κ × ν)) : history.rtake n <:+ history :=
  List.drop_suffix _ _

namespace Holds

variable {n : Nat} {history : List (κ × ν)} {r : Recent κ ν}

theorem start (n : Nat) : Holds n [] (empty : Recent κ ν) where
  nodup := List.nodup_nil
  order := by simp [empty]
  lookup := by simp [empty]

theorem nodup_order (h : Holds n history r) : r.order.Nodup := by
  rw [h.order]
  exact h.nodup.sublist ((rtake_suffix n history).sublist.map _)

/-- An entry stays until `n` later ones have come. -/
theorem lookup_of_split (h : Holds n history r) {before later : List (κ × ν)} {k : κ} {v : ν}
    (hsplit : history = before ++ (k, v) :: later) :
    r.map.lookup k = if later.length < n then some v else none := by
  have hlen : history.length = before.length + (later.length + 1) := by
    rw [hsplit, List.length_append, List.length_cons]
  split
  · rename_i hlt
    rw [h.lookup, List.rtake, hlen, hsplit, List.drop_append_of_le_length (by omega)]
    exact List.mem_append_right _ List.mem_cons_self
  · rename_i hge
    have hlater : history.rtake n <:+ later := by
      rw [List.rtake, show history.length - n = before.length + 1 + (later.length - n) by omega,
        hsplit, ← List.drop_drop, ← List.drop_drop, List.drop_left]
      exact List.drop_suffix _ _
    rw [Option.eq_none_iff_forall_ne_some]
    intro v' hv'
    have hmem : k ∈ later.map Prod.fst :=
      List.mem_map.mpr ⟨_, hlater.subset ((h.lookup k v').mp hv'), rfl⟩
    have hnodup := h.nodup
    rw [hsplit, List.map_append, List.map_cons] at hnodup
    exact (List.nodup_cons.mp (List.nodup_append.mp hnodup).2.1).1 hmem

/-- After an eviction there is room. -/
theorem evict (h : Holds (n + 1) history r) : Holds n history (r.evict (n + 1)) := by
  have hlen : r.order.length = (history.rtake (n + 1)).length := by rw [h.order, List.length_map]
  unfold Recent.evict
  split
  · rename_i hfull
    have hlong : n + 1 ≤ history.length := by
      rw [hlen, List.rtake, List.length_drop] at hfull
      omega
    obtain ⟨⟨k, v⟩, hkv⟩ : ∃ e, history.rtake (n + 1) = e :: history.rtake n := by
      rw [List.rtake, List.rtake, show history.length - n = history.length - (n + 1) + 1 by omega]
      exact ⟨_, List.drop_eq_getElem_cons (by omega)⟩
    have horder : r.order = k :: (history.rtake n).map Prod.fst := by rw [h.order, hkv]; rfl
    have hk : k ∉ (history.rtake n).map Prod.fst := by
      have hnodup := h.nodup_order
      rw [horder] at hnodup
      exact (List.nodup_cons.mp hnodup).1
    rw [horder]
    refine ⟨h.nodup, rfl, fun k' v' ↦ ?_⟩
    rcases eq_or_ne k' k with rfl | hne
    · rw [AList.lookup_erase]
      refine ⟨nofun, fun hmem ↦ absurd ?_ hk⟩
      exact List.mem_map.mpr ⟨_, hmem, rfl⟩
    · rw [AList.lookup_erase_ne hne, h.lookup, hkv]
      simp [hne]
  · rename_i hroom
    have hall : history.rtake (n + 1) = history.rtake n := by
      rw [hlen, List.rtake, List.length_drop] at hroom
      rw [List.rtake, List.rtake]
      congr 1
      omega
    exact ⟨h.nodup, hall ▸ h.order, hall ▸ h.lookup⟩

/-- **A new entry** is the last one of the history. -/
theorem push (h : Holds (n + 1) history r) {k : κ} (hnew : k ∉ history.map Prod.fst) (v : ν) :
    Holds (n + 1) (history ++ [(k, v)]) (r.push (n + 1) k v) where
  nodup := by
    rw [List.map_append, List.map_singleton, List.nodup_append]
    refine ⟨h.nodup, List.nodup_singleton _, ?_⟩
    rintro k' hk' k'' hk'' rfl
    obtain rfl : k' = k := List.mem_singleton.mp hk''
    exact hnew hk'
  order := by
    rw [List.rtake_concat_succ, List.map_append, ← h.evict.order]
    rfl
  lookup := by
    intro k' v'
    rw [List.rtake_concat_succ]
    change AList.lookup k' (AList.insert k v (r.evict (n + 1)).map) = some v' ↔ _
    rw [HashMap.lookup_insert_eq]
    split
    · rename_i heq
      subst heq
      have hout : (k', v') ∉ history.rtake n := fun hmem ↦
        hnew (List.mem_map.mpr ⟨_, (rtake_suffix n history).subset hmem, rfl⟩)
      simp [hout, eq_comm]
    · rename_i hne
      rw [h.evict.lookup]
      simp [hne]

end Holds

end Recent

end Vaiexia.Lib
