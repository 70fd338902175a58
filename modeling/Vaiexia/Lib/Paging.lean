import Mathlib.Data.List.Basic

/-!
# Paging

A source that gives out a list in pages is a function from a cursor, or none, to a page and the
cursor of the next one.  `Paging.Pages` is what a client sees that follows the cursors until there
is none.
-/

namespace Vaiexia.Lib

namespace Paging

variable {α γ : Type*}

/-- The pages from a cursor on, up to the one after which there is no cursor. -/
inductive Pages (get : Option γ → Option (List α × Option γ)) : Option γ → List (List α) → Prop
  | last {cursor : Option γ} {page : List α} (hget : get cursor = some (page, none)) :
      Pages get cursor [page]
  | more {cursor : Option γ} {page : List α} {next : γ} {pages : List (List α)}
      (hget : get cursor = some (page, some next)) (hrest : Pages get (some next) pages) :
      Pages get cursor (page :: pages)

/-- A source cuts a list into pages of one size: at a cursor that stands for an index it gives out
what begins there, and the cursor after it stands for the index of what is left. -/
structure Cuts (get : Option γ → Option (List α × Option γ)) (index : Option γ → Nat)
    (items : List α) (size : Nat) : Prop where
  page : ∀ cursor, index cursor ≤ items.length → ∃ next,
    get cursor = some ((items.drop (index cursor)).take size, next)
  next : ∀ cursor page, index cursor ≤ items.length → ∀ next, get cursor = some (page, some next) →
    index (some next) = index cursor + size ∧ index cursor + size < items.length
  done : ∀ cursor page, index cursor ≤ items.length → get cursor = some (page, none) →
    items.length ≤ index cursor + size

variable {get : Option γ → Option (List α × Option γ)} {index : Option γ → Nat} {items : List α}
  {size : Nat}

/-- **Every page once.**  Following the cursors ends, and the pages put together are the list from
where the walk started; all but the last have the size of a page. -/
theorem Cuts.pages (hcuts : Cuts get index items size) (hsize : 0 < size) (cursor : Option γ)
    (hindex : index cursor ≤ items.length) :
    ∃ pages, Pages get cursor pages ∧ pages.flatten = items.drop (index cursor) ∧
      ∀ page ∈ pages.dropLast, page.length = size := by
  -- by induction on what is left, which every page makes shorter
  induction hleft : items.length - index cursor using Nat.strongRecOn
    generalizing cursor with
  | ind left ih =>
      obtain ⟨next, hget⟩ := hcuts.page cursor hindex
      cases next with
      | none =>
          have hdone := hcuts.done cursor _ hindex hget
          refine ⟨_, .last hget, ?_, fun page hpage ↦ nomatch hpage⟩
          rw [List.flatten_singleton, List.take_of_length_le]
          rw [List.length_drop]
          omega
      | some next =>
          obtain ⟨hnext, hmore⟩ := hcuts.next cursor _ hindex next hget
          obtain ⟨pages, hpages, hflat, hfull⟩ :=
            ih _ (by omega) (some next) (hnext ▸ Nat.le_of_lt hmore) rfl
          refine ⟨_, .more hget hpages, ?_, ?_⟩
          · rw [List.flatten_cons, hflat, hnext, ← List.drop_drop, List.take_append_drop]
          · intro page hpage
            have hne : pages ≠ [] := by
              intro hnil
              rw [hnil] at hpages
              cases hpages
            rw [List.dropLast_cons_of_ne_nil hne] at hpage
            rcases List.mem_cons.mp hpage with rfl | hpage
            · rw [List.length_take, List.length_drop]
              omega
            · exact hfull page hpage

end Paging

end Vaiexia.Lib
