import Vaiexia.Backend.Glob
import Vaiexia.Backend.Logs
import Vaiexia.Backend.RunJob
import Vaiexia.Lib.Paging

/-!
# Listing the units of systemd

`list_filter` and `paginate` of `crates/vaiexia-server/src/backend/systemd/manager.rs` and
`SystemdServices::list` of `linux.rs`.  The D-Bus calls are what they answer; a slice out of bounds
is a panic.
-/

namespace Vaiexia.Backend

open Vaiexia.Lib

namespace Systemd

/-! ## Filtering and paging -/

/-- `list_filter`. -/
def listFilter (units : List UnitStatus) (stateFilter : Option ServiceState)
    (nameGlob : Option String) : List UnitStatus :=
  (units.filter fun u ↦ (stateFilter.map fun s ↦ u.activeState == s).getD true).filter
    fun u ↦ (nameGlob.map fun g ↦ globMatches g u.name).getD true

/-- `usize::MAX`. -/
def usizeMax : Nat := 2 ^ 64 - 1

/-- `usize::saturating_add`. -/
def saturatingAdd (a b : Nat) : Nat := min (a + b) usizeMax

/-- `&xs[begin..end]`; `none` is a panic. -/
def slice {α : Type} (xs : List α) (first last : Nat) : Option (List α) :=
  if first ≤ last ∧ last ≤ xs.length then some ((xs.drop first).take (last - first)) else none

/-- `paginate`. -/
def paginate {α : Type} (items : List α) (start size : Nat) :
    Option (List α × Option String) := do
  let first := min start items.length
  let last := min (saturatingAdd first size) items.length
  let page ← slice items first last
  return (page, if last < items.length then some (decimal last) else none)

/-- `PAGE_SIZE`. -/
def pageSize : Nat := 25

/-- `cursor_to_idx`. -/
def cursorToIdx (cursor : String) : Option Nat := Text.parseUnsigned (2 ^ 64) cursor.toList

/-- The index from which a page is taken. -/
def startOf (page : Option String) : Nat := (page.bind cursorToIdx).getD 0

/-! ## The provider -/

/-- `active_state_from_dbus`. -/
def activeStateFromDbus (s : String) : ServiceState :=
  match s with
  | "active" => .active
  | "inactive" => .inactive
  | "failed" => .failed
  | "activating" => .activating
  | "deactivating" => .deactivating
  | _ => .unknown

/-- The fields of a unit that `ListUnits` answers with and that are used. -/
structure RawUnit where
  name : String
  desc : String
  load : String
  active : String
  sub : String

def RawUnit.status (u : RawUnit) : UnitStatus where
  name := u.name
  description := u.desc
  loadState := u.load
  activeState := activeStateFromDbus u.active
  subState := u.sub

/-- The answers of the bus: to making the proxy, and to `ListUnits`; errors by their text. -/
structure UnitBus where
  proxy : Except String Unit
  listUnits : Except String (List RawUnit)

/-- `SystemdServices::list`; `none` is a panic. -/
def list (bus : UnitBus) (stateFilter : Option ServiceState) (nameGlob page : Option String) :
    Option (Except BackendError (Page UnitStatus)) :=
  match bus.proxy with
  | .error msg => some (.error (mapDbusError msg))
  | .ok () =>
      match bus.listUnits with
      | .error msg => some (.error (mapDbusError msg))
      | .ok raw => do
          let filtered := listFilter (raw.map RawUnit.status) stateFilter nameGlob
          let (items, next) ← paginate filtered (startOf page) pageSize
          return .ok ⟨items, next⟩

/-! ## Pages -/

section Paginate

variable {α : Type} {items : List α}

/-- **What `paginate` gives out**, wherever it starts: no index is out of bounds. -/
theorem paginate_eq (hlen : items.length < 2 ^ 64) (start size : Nat) :
    paginate items start size =
      some ((items.drop start).take size,
        if start + size < items.length then some (decimal (start + size)) else none) := by
  have hmax : items.length ≤ usizeMax := Nat.le_pred_of_lt hlen
  have hlast : min (saturatingAdd (min start items.length) size) items.length =
      min (start + size) items.length := by
    rw [saturatingAdd]
    omega
  have hbounds : min start items.length ≤ min (start + size) items.length ∧
      min (start + size) items.length ≤ items.length := by omega
  have hpage : (items.drop (min start items.length)).take
      (min (start + size) items.length - min start items.length) =
        (items.drop start).take size := by
    rcases Nat.le_total start items.length with hle | hle
    · rw [Nat.min_eq_left hle, List.take_eq_take_iff, List.length_drop]
      omega
    · rw [Nat.min_eq_right hle, List.drop_length, List.drop_eq_nil_of_le hle, List.take_nil,
        List.take_nil]
  have hnext : (if min (start + size) items.length < items.length then
      some (decimal (min (start + size) items.length)) else none) =
        if start + size < items.length then some (decimal (start + size)) else none := by
    by_cases hmore : start + size < items.length
    · rw [Nat.min_eq_left (Nat.le_of_lt hmore), if_pos hmore]
    · rw [if_neg hmore, Nat.min_eq_right (Nat.not_lt.mp hmore), if_neg (Nat.lt_irrefl _)]
  simp only [paginate, hlast, slice]
  rw [if_pos hbounds, Option.bind_eq_bind, Option.bind_some, hpage, hnext]
  rfl

theorem startOf_decimal {idx : Nat} (hidx : idx < 2 ^ 64) : startOf (some (decimal idx)) = idx := by
  rw [startOf, Option.bind_some, cursorToIdx, decimal, String.toList_ofList,
    Text.parseUnsigned_toDigits hidx, Option.getD_some]

/-- `paginate`, with the index read from a cursor, cuts the list into pages. -/
theorem cuts_paginate (hlen : items.length < 2 ^ 64) (size : Nat) :
    Paging.Cuts (fun page ↦ paginate items (startOf page) size) startOf items size := by
  constructor
  · intro cursor _
    exact ⟨_, paginate_eq hlen _ _⟩
  · intro cursor page _ next hget
    rw [paginate_eq hlen] at hget
    obtain ⟨-, hnext⟩ := Prod.mk.inj (Option.some.inj hget)
    split at hnext
    · rename_i hmore
      obtain rfl := Option.some.inj hnext
      exact ⟨startOf_decimal (Nat.lt_trans hmore hlen), hmore⟩
    · cases hnext
  · intro cursor page _ hget
    rw [paginate_eq hlen] at hget
    obtain ⟨-, hnext⟩ := Prod.mk.inj (Option.some.inj hget)
    split at hnext
    · cases hnext
    · rename_i hdone
      exact Nat.not_lt.mp hdone

end Paginate

/-- A page of the provider, when the bus answers. -/
def pageFrom (raw : List RawUnit) (stateFilter : Option ServiceState)
    (nameGlob page : Option String) : Option (List UnitStatus × Option String) :=
  match list ⟨.ok (), .ok raw⟩ stateFilter nameGlob page with
  | some (.ok page) => some (page.items, page.next)
  | _ => none

theorem length_listFilter_le (units : List UnitStatus) (stateFilter : Option ServiceState)
    (nameGlob : Option String) : (listFilter units stateFilter nameGlob).length ≤ units.length :=
  (List.length_filter_le _ _).trans (List.length_filter_le _ _)

theorem pageFrom_eq (raw : List RawUnit) (stateFilter : Option ServiceState)
    (nameGlob page : Option String) :
    pageFrom raw stateFilter nameGlob page =
      paginate (listFilter (raw.map RawUnit.status) stateFilter nameGlob) (startOf page)
        pageSize := by
  simp only [pageFrom, list]
  cases paginate (listFilter (raw.map RawUnit.status) stateFilter nameGlob) (startOf page) pageSize
  · rfl
  · rfl

/-- A unit passes the filters that are given: it has the state, and its name matches the pattern. -/
def Passes (stateFilter : Option ServiceState) (nameGlob : Option String) (u : UnitStatus) : Prop :=
  (∀ s ∈ stateFilter, u.activeState = s) ∧ ∀ g ∈ nameGlob, globMatches g u.name = true

instance (stateFilter : Option ServiceState) (nameGlob : Option String) (u : UnitStatus) :
    Decidable (Passes stateFilter nameGlob u) :=
  inferInstanceAs (Decidable (_ ∧ _))

/-- `list_filter` keeps the units that pass, in their order. -/
theorem listFilter_eq (units : List UnitStatus) (stateFilter : Option ServiceState)
    (nameGlob : Option String) :
    listFilter units stateFilter nameGlob
      = units.filter fun u ↦ decide (Passes stateFilter nameGlob u) := by
  rw [listFilter, List.filter_filter]
  refine List.filter_congr fun u _ ↦ ?_
  cases stateFilter <;> cases nameGlob <;> simp [Passes, Bool.and_comm, beq_eq_decide]

/-- **Listing services page by page.**  Following the cursors from the first page ends, and shows
the units that pass the filters once and in their order, 25 on every page but the last; any list
is paged so by `paginate` with any size; and no start is out of bounds. -/
theorem services_pages (raw : List RawUnit) (hraw : raw.length < 2 ^ 64)
    (stateFilter : Option ServiceState) (nameGlob : Option String) :
    (∃ pages, Paging.Pages (pageFrom raw stateFilter nameGlob) none pages ∧
      pages.flatten = (raw.map RawUnit.status).filter
        (fun u ↦ decide (Passes stateFilter nameGlob u)) ∧
      ∀ page ∈ pages.dropLast, page.length = 25) ∧
    (∀ {α : Type} (items : List α) (size : Nat), items.length < 2 ^ 64 → 0 < size →
      ∃ pages, Paging.Pages (fun page ↦ paginate items (startOf page) size) none pages ∧
        pages.flatten = items ∧ ∀ page ∈ pages.dropLast, page.length = size) ∧
    ∀ {α : Type} (items : List α) (start size : Nat), items.length < 2 ^ 64 →
      paginate items start size ≠ none := by
  have hpaged : ∀ {α : Type} (items : List α) (size : Nat), items.length < 2 ^ 64 → 0 < size →
      ∃ pages, Paging.Pages (fun page ↦ paginate items (startOf page) size) none pages ∧
        pages.flatten = items ∧ ∀ page ∈ pages.dropLast, page.length = size := by
    intro α items size hlen hsize
    exact (cuts_paginate hlen size).pages hsize none (Nat.zero_le _)
  refine ⟨?_, hpaged, fun items start size hlen ↦ ?_⟩
  · rw [funext (pageFrom_eq raw stateFilter nameGlob), ← listFilter_eq]
    refine hpaged _ pageSize (Nat.lt_of_le_of_lt (length_listFilter_le _ _ _) ?_) (by decide)
    rwa [List.length_map]
  · rw [paginate_eq hlen]
    exact Option.some_ne_none _

/-- A unit that runs, and one that does not. -/
def sshdUnit : RawUnit := ⟨"sshd.service", "", "loaded", "active", "running"⟩

def cronUnit : RawUnit := ⟨"cron.service", "", "loaded", "inactive", "dead"⟩

/-- The pages of the active units show the sixty that there are, and not the one between them. -/
theorem services_pages_sixty :
    ∃ pages, Paging.Pages (pageFrom (List.replicate 30 sshdUnit ++ cronUnit ::
        List.replicate 30 sshdUnit) (some .active) (some "ssh*")) none pages ∧
      pages.flatten = List.replicate 60 sshdUnit.status ∧
      ∀ page ∈ pages.dropLast, page.length = 25 := by
  obtain ⟨pages, hpages, hflatten, hlength⟩ := (services_pages
    (List.replicate 30 sshdUnit ++ cronUnit :: List.replicate 30 sshdUnit) (by decide)
    (some .active) (some "ssh*")).1
  have hsshd : decide (Passes (some .active) (some "ssh*") sshdUnit.status) = true := by decide
  have hcron : decide (Passes (some .active) (some "ssh*") cronUnit.status) = false := by decide
  refine ⟨pages, hpages, ?_, hlength⟩
  rw [hflatten, List.map_append, List.map_cons, List.map_replicate, List.filter_append,
    List.filter_cons_of_neg (by simp [hcron]), List.filter_replicate, if_pos hsshd,
    List.replicate_append_replicate]

end Systemd

end Vaiexia.Backend
