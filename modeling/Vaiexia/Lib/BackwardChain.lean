import Mathlib.Data.List.Chain

/-!
# Chains that are determined backwards

A list in which every element determines the one before it: two such lists with the same last
element agree from the end as far as both go.
-/

namespace Vaiexia.Lib.BackwardChain

variable {α : Type} {R : α → α → Prop} {as bs : List α}

/-- Read forwards: chains with the same head, of which each element determines the next. -/
theorem prefixes_comparable (hunique : ∀ x ∈ as, ∀ y ∈ bs, ∀ z, R z x → R z y → x = y)
    (ha : as.IsChain R) (hb : bs.IsChain R) (hhead : as.head? = bs.head?) :
    as <+: bs ∨ bs <+: as := by
  induction as generalizing bs with
  | nil => exact .inl List.nil_prefix
  | cons a as ih =>
      cases bs with
      | nil => cases hhead
      | cons b bs =>
          obtain rfl : a = b := Option.some.inj hhead
          obtain ⟨hna, ha⟩ := List.isChain_cons.mp ha
          obtain ⟨hnb, hb⟩ := List.isChain_cons.mp hb
          have hnext : as = [] ∨ bs = [] ∨ as.head? = bs.head? := by
            rcases as with _ | ⟨x, as⟩
            · exact .inl rfl
            · rcases bs with _ | ⟨y, bs⟩
              · exact .inr (.inl rfl)
              · refine .inr (.inr (congrArg some ?_))
                exact hunique x (by simp) y (by simp) a (hna x rfl) (hnb y rfl)
          rcases hnext with rfl | rfl | hhead
          · exact .inl (by simp)
          · exact .inr (by simp)
          · have hrest := ih (fun x hx y hy ↦ hunique x (List.mem_cons_of_mem a hx) y
              (List.mem_cons_of_mem a hy)) ha hb hhead
            simpa [List.cons_prefix_cons] using hrest

/-- **Chains with the same last element**, of which each element determines the one before: one is
a suffix of the other. -/
theorem suffixes_comparable (hunique : ∀ x ∈ as, ∀ y ∈ bs, ∀ z, R x z → R y z → x = y)
    (ha : as.IsChain R) (hb : bs.IsChain R) (hlast : as.getLast? = bs.getLast?) :
    as <:+ bs ∨ bs <:+ as := by
  have hprefix := @prefixes_comparable α (fun x y ↦ R y x) as.reverse bs.reverse
    (fun x hx y hy ↦ hunique x (List.mem_reverse.mp hx) y (List.mem_reverse.mp hy))
    (List.isChain_reverse.mpr ha) (List.isChain_reverse.mpr hb) (by simpa using hlast)
  simpa [List.reverse_prefix] using hprefix

end Vaiexia.Lib.BackwardChain
