import Mathlib.Data.List.Chain

/-!
# Logs in segments

A log that is cut into segments as it grows: the open segment receives entries until it is
`full`, then it is closed and a new one opened.  Nothing is ever lost in this abstract log; a
program that keeps only the newest segments is compared with it by the numbers of its segments,
`0` being the open one.
-/

namespace Vaiexia.Lib

/-- The closed segments, newest first, and the open one. -/
structure SegmentedLog (α : Type*) where
  current : List α
  closed : List (List α)

namespace SegmentedLog

variable {α : Type*}

/-- The log without entries. -/
def empty : SegmentedLog α where
  current := []
  closed := []

/-- All segments, the newest first. -/
def segments (l : SegmentedLog α) : List (List α) := l.current :: l.closed

/-- All entries, the oldest first. -/
def written (l : SegmentedLog α) : List α := l.segments.reverse.flatten

/-- Closing the open segment. -/
def rotate (l : SegmentedLog α) : SegmentedLog α where
  current := []
  closed := l.current :: l.closed

/-- Adding an entry to the open segment. -/
def append (x : α) (l : SegmentedLog α) : SegmentedLog α := { l with current := l.current ++ [x] }

/-- Adding an entry, after closing a segment that is full. -/
def push (full : List α → Bool) (x : α) (l : SegmentedLog α) : SegmentedLog α :=
  (if full l.current then l.rotate else l).append x

@[simp] theorem written_empty : (empty : SegmentedLog α).written = [] := rfl

@[simp] theorem written_rotate (l : SegmentedLog α) : l.rotate.written = l.written := by
  simp [written, segments, rotate]

@[simp] theorem written_append (x : α) (l : SegmentedLog α) :
    (l.append x).written = l.written ++ [x] := by
  simp [written, segments, append]

/-- Nothing is lost and nothing is reordered. -/
@[simp] theorem written_push (full : List α → Bool) (x : α) (l : SegmentedLog α) :
    (l.push full x).written = l.written ++ [x] := by
  unfold push
  split <;> simp

/-- A segment closed by `push` has an entry, if an empty one is never full. -/
theorem closed_ne_nil_push {full : List α → Bool} (hfull : full [] = false) {x : α}
    {l : SegmentedLog α} (h : ∀ seg ∈ l.closed, seg ≠ []) :
    ∀ seg ∈ (l.push full x).closed, seg ≠ [] := by
  unfold push
  split
  · rename_i hf
    intro seg hseg
    rcases List.mem_cons.mp hseg with rfl | hseg
    · rintro hnil
      rw [hnil, hfull] at hf
      exact absurd hf (by decide)
    · exact h seg hseg
  · exact h

/-- The segment an entry is added to has one. -/
theorem current_ne_nil_push (full : List α → Bool) (x : α) (l : SegmentedLog α) :
    (l.push full x).current ≠ [] := by
  simp [push, append]

/-! ### Adding many entries -/

/-- Adding entries one after another. -/
def pushAll (full : List α → Bool) (xs : List α) (l : SegmentedLog α) : SegmentedLog α :=
  xs.foldl (fun l x ↦ l.push full x) l

@[simp] theorem pushAll_nil (full : List α → Bool) (l : SegmentedLog α) :
    l.pushAll full [] = l := rfl

theorem pushAll_cons (full : List α → Bool) (x : α) (xs : List α) (l : SegmentedLog α) :
    l.pushAll full (x :: xs) = (l.push full x).pushAll full xs := rfl

theorem pushAll_append (full : List α → Bool) (xs ys : List α) (l : SegmentedLog α) :
    l.pushAll full (xs ++ ys) = (l.pushAll full xs).pushAll full ys := List.foldl_append

@[simp] theorem written_pushAll (full : List α → Bool) (xs : List α) (l : SegmentedLog α) :
    (l.pushAll full xs).written = l.written ++ xs := by
  induction xs generalizing l with
  | nil => simp
  | cons x xs ih => simp [pushAll_cons, ih]

theorem closed_ne_nil_pushAll {full : List α → Bool} (hfull : full [] = false) {xs : List α}
    {l : SegmentedLog α} (h : ∀ seg ∈ l.closed, seg ≠ []) :
    ∀ seg ∈ (l.pushAll full xs).closed, seg ≠ [] := by
  induction xs generalizing l with
  | nil => exact h
  | cons x xs ih => exact ih (closed_ne_nil_push hfull h)

/-- Only the log that nothing was ever added to has an empty open segment. -/
theorem current_ne_nil_pushAll (full : List α → Bool) {xs : List α} (hxs : xs ≠ [])
    (l : SegmentedLog α) : (l.pushAll full xs).current ≠ [] := by
  induction xs generalizing l with
  | nil => exact absurd rfl hxs
  | cons x xs ih =>
      cases xs with
      | nil => exact current_ne_nil_push full x l
      | cons y ys => exact ih (by simp) (l.push full x)

/-- In a log built from nothing, a segment other than the only one has an entry. -/
theorem ne_nil_of_mem_segments {full : List α → Bool} (hfull : full [] = false) {xs : List α}
    (hclosed : ((empty : SegmentedLog α).pushAll full xs).closed ≠ []) :
    ∀ seg ∈ ((empty : SegmentedLog α).pushAll full xs).segments, seg ≠ [] := by
  intro seg hseg
  have hxs : xs ≠ [] := by
    rintro rfl
    exact hclosed rfl
  rcases List.mem_cons.mp hseg with rfl | hseg
  · exact current_ne_nil_pushAll full hxs empty
  · exact closed_ne_nil_pushAll hfull (by simp [empty]) seg hseg

/-- Entries that leave the open segment below its limit stay in it. -/
theorem pushAll_of_not_full {full : List α → Bool} {xs : List α} {l : SegmentedLog α}
    (h : ∀ pre, pre <+: xs → full (l.current ++ pre) = false) :
    l.pushAll full xs = { l with current := l.current ++ xs } := by
  induction xs generalizing l with
  | nil => simp
  | cons x xs ih =>
      have hfull : full l.current = false := by simpa using h [] (List.nil_prefix)
      have hpush : l.push full x = l.append x := by simp [push, hfull]
      rw [pushAll_cons, hpush, ih]
      · simp [append]
      · intro pre hpre
        simpa [append] using h (x :: pre) (List.cons_prefix_cons.mpr ⟨rfl, hpre⟩)

/-- The `k` newest segments hold a suffix of the log. -/
theorem written_eq_append (l : SegmentedLog α) (k : Nat) :
    l.written = (l.segments.drop k).reverse.flatten ++ (l.segments.take k).reverse.flatten := by
  rw [written, ← List.flatten_append, ← List.reverse_append, List.take_append_drop]

section Chain

variable {R : α → α → Prop}

/-- Each segment of a chain is a chain. -/
theorem isChain_of_mem_segments {l : SegmentedLog α} (h : l.written.IsChain R) {seg : List α}
    (hseg : seg ∈ l.segments) : seg.IsChain R := by
  obtain ⟨pre, post, hsplit⟩ := List.append_of_mem (List.mem_reverse.mpr hseg)
  rw [written, hsplit, List.flatten_append, List.flatten_cons] at h
  exact (List.isChain_append.mp (List.isChain_append.mp h).2.1).1

/-- Neighbouring segments of a chain are linked where they meet. -/
theorem link_of_segments {l : SegmentedLog α} (h : l.written.IsChain R) {n : Nat}
    {newer older : List α} (hnew : l.segments[n]? = some newer)
    (hold : l.segments[n + 1]? = some older) :
    ∀ x ∈ older.getLast?, ∀ y ∈ newer.head?, R x y := by
  obtain ⟨hn, rfl⟩ := List.getElem?_eq_some_iff.mp hnew
  obtain ⟨hn', rfl⟩ := List.getElem?_eq_some_iff.mp hold
  have hsplit : l.segments = l.segments.take n ++ l.segments[n] :: l.segments[n + 1]
      :: l.segments.drop (n + 2) := by
    rw [← List.drop_eq_getElem_cons hn', ← List.drop_eq_getElem_cons hn, List.take_append_drop]
  rw [written, hsplit] at h
  simp only [List.reverse_append, List.reverse_cons, List.append_assoc, List.cons_append,
    List.nil_append, List.flatten_append, List.flatten_cons] at h
  have hmid := (List.isChain_append.mp h).2.1
  rw [List.isChain_append] at hmid
  intro x hx y hy
  refine hmid.2.2 x hx y ?_
  rw [List.head?_append, Option.mem_def.mp hy]
  rfl

end Chain

end SegmentedLog

end Vaiexia.Lib
