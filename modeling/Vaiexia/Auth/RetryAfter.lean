import Vaiexia.Auth.RateLimit

/-!
# Waiting as long as one is told

A refused check says after how many seconds to try again: the rest of the window, rounded down to
whole seconds unless it is less than one.  So who waits just as long comes too early when the rest
of the window is more than a second and not a number of whole seconds (`waiting_iff`).  A second
more is always enough (`check_after_second_more`).

The buckets are looked at where the calls are made, whatever the readings of the clock before.
-/

namespace Vaiexia.Auth

open Vaiexia.Lib

namespace RateLimiter

variable {rl : RateLimiter} {t now : Nat} {k : String} {buckets : HashMap String Bucket}
  {b : Bucket}

/-! ## One check -/

theorem charge_new (hmax : 1 ≤ rl.maxAttempts) (now start : Nat) :
    (rl.charge now ⟨0, start⟩).2 = .ok () := by
  rw [charge, if_neg (Nat.not_le_of_lt hmax)]

theorem charge_full (hfull : rl.maxAttempts ≤ b.attempts) (now : Nat) :
    rl.charge now b =
      (b, .error ⟨max ((rl.window - (now - b.windowStart)) / 10 ^ 9) 1⟩) := if_pos hfull

/-- A key that is not tracked is allowed. -/
theorem check_of_lookup_none (hmax : 1 ≤ rl.maxAttempts) (hk : buckets.lookup k = none) :
    (rl.check now k buckets).2 = .ok () := by
  have hroom : (rl.makeRoom now k buckets).lookup k = none := by
    rcases rl.lookup_makeRoom now k k buckets with hsame | ⟨hnone, -⟩
    · exact hsame.trans hk
    · exact hnone
  have hnew : rl.renew now ⟨0, now⟩ = ⟨0, now⟩ := ite_self _
  show (rl.charge now (rl.renew now (((rl.makeRoom now k buckets).lookup k).getD ⟨0, now⟩))).2 = _
  rw [hroom, Option.getD_none, hnew]
  exact charge_new hmax now now

/-- A tracked key is counted in its bucket. -/
theorem check_of_lookup_some (hk : buckets.lookup k = some b) :
    rl.check now k buckets =
      (buckets.insert k (rl.charge now (rl.renew now b)).1,
        (rl.charge now (rl.renew now b)).2) := by
  have hroom : rl.makeRoom now k buckets = buckets := by
    refine if_neg fun h ↦ ?_
    rw [hk] at h
    cases h.2
  rw [check, hroom, hk]
  rfl

/-- **A refused check**: the bucket of its key is full, its window is open, and the answer is what
is left of it in whole seconds, but at least one.  The bucket stays as it is. -/
theorem of_refused (hmax : 1 ≤ rl.maxAttempts) {s : Nat}
    (hrefused : (rl.check t k buckets).2 = .error ⟨s⟩) :
    ∃ b, buckets.lookup k = some b ∧ rl.maxAttempts ≤ b.attempts ∧
      t - b.windowStart < rl.window ∧ s = max ((rl.window - (t - b.windowStart)) / 10 ^ 9) 1 ∧
      (rl.check t k buckets).1.lookup k = some b := by
  cases hk : buckets.lookup k with
  | none =>
      rw [check_of_lookup_none hmax hk] at hrefused
      cases hrefused
  | some b =>
      rw [check_of_lookup_some hk] at hrefused ⊢
      by_cases hopen : rl.window ≤ t - b.windowStart
      · have hrenew : rl.renew t b = ⟨0, t⟩ := if_pos hopen
        rw [hrenew, charge_new hmax] at hrefused
        cases hrefused
      · have hrenew : rl.renew t b = b := if_neg hopen
        rw [hrenew] at hrefused ⊢
        by_cases hfull : rl.maxAttempts ≤ b.attempts
        · rw [charge_full hfull] at hrefused ⊢
          obtain rfl := RateLimited.mk.inj (Except.error.inj hrefused)
          exact ⟨b, rfl, hfull, Nat.lt_of_not_le hopen, rfl, AList.lookup_insert _⟩
        · rw [charge, if_neg hfull] at hrefused
          cases hrefused

/-! ## Calls on other keys -/

/-- At `t`, the bucket is still there, unless its window has elapsed. -/
def Kept (rl : RateLimiter) (t : Nat) (k : String) (b : Bucket)
    (buckets : HashMap String Bucket) : Prop :=
  buckets.lookup k = some b ∨ buckets.lookup k = none ∧ b.windowStart + rl.window ≤ t

/-- Making room drops it only when its window has elapsed. -/
theorem Kept.makeRoom (h : Kept rl t k b buckets) (hwindow : 0 < rl.window) (hnow : now ≤ t)
    (key : String) : Kept rl t k b (rl.makeRoom now key buckets) := by
  rcases rl.lookup_makeRoom now key k buckets with hsame | ⟨hnone, b', hl, hdead⟩
  · rw [Kept, hsame]
    exact h
  · refine .inr ⟨hnone, ?_⟩
    rcases h with hk | ⟨-, helapsed⟩
    · obtain rfl := Option.some.inj (hk.symm.trans hl)
      omega
    · exact helapsed

/-- A call on another key leaves it there, or drops it when its window has elapsed. -/
theorem Kept.step (h : Kept rl t k b buckets) (hwindow : 0 < rl.window) {call : Call}
    (hkey : call.key ≠ k) (hclock : ∀ now ∈ call.now?, now ≤ t) :
    Kept rl t k b (rl.step buckets call) := by
  cases call with
  | reset key =>
      have hlookup : (rl.step buckets (.reset key)).lookup k = buckets.lookup k :=
        AList.lookup_erase_ne (Ne.symm hkey)
      rw [Kept, hlookup]
      exact h
  | check key now =>
      have hlookup : (rl.step buckets (.check key now)).lookup k =
          (rl.makeRoom now key buckets).lookup k := AList.lookup_insert_ne (Ne.symm hkey)
      rw [Kept, hlookup]
      exact h.makeRoom hwindow (hclock now rfl) key

theorem Kept.run {others : List Call} (hwindow : 0 < rl.window)
    (hothers : ∀ call ∈ others, call.key ≠ k)
    (hclock : ∀ now ∈ others.filterMap Call.now?, now ≤ t) (h : Kept rl t k b buckets) :
    Kept rl t k b (others.foldl rl.step buckets) := by
  induction others generalizing buckets with
  | nil => exact h
  | cons call others ih =>
      have hown : ∀ now ∈ call.now?, now ≤ t := fun now hnow ↦
        hclock now (List.mem_filterMap.mpr ⟨call, List.mem_cons_self, hnow⟩)
      have hrest : ∀ now ∈ others.filterMap Call.now?, now ≤ t := by
        intro now hnow
        obtain ⟨c, hc, hcnow⟩ := List.mem_filterMap.mp hnow
        exact hclock now (List.mem_filterMap.mpr ⟨c, List.mem_cons_of_mem call hc, hcnow⟩)
      exact ih (fun c hc ↦ hothers c (List.mem_cons_of_mem call hc)) hrest
        (h.step hwindow (hothers call List.mem_cons_self) hown)

/-- **A check of a full bucket** is allowed once its window has elapsed. -/
theorem Kept.check_iff (h : Kept rl t k b buckets) (hmax : 1 ≤ rl.maxAttempts)
    (hfull : rl.maxAttempts ≤ b.attempts) (hwindow : 0 < rl.window) :
    (rl.check t k buckets).2 = .ok () ↔ b.windowStart + rl.window ≤ t := by
  rcases h with hk | ⟨hk, helapsed⟩
  · rw [check_of_lookup_some hk]
    by_cases hopen : rl.window ≤ t - b.windowStart
    · have hrenew : rl.renew t b = ⟨0, t⟩ := if_pos hopen
      rw [hrenew]
      exact iff_of_true (charge_new hmax t t) (by omega)
    · have hrenew : rl.renew t b = b := if_neg hopen
      rw [hrenew, charge_full hfull]
      exact iff_of_false nofun (by omega)
  · exact iff_of_true (check_of_lookup_none hmax hk) helapsed

/-! ## Waiting -/

section Waiting

variable {calls others : List Call} {s d : Nat}

/-- A check that is refused and made again after `d`, with calls on other keys until then. -/
theorem check_after_iff (hmax : 1 ≤ rl.maxAttempts)
    (hrefused : (rl.check t k (rl.run calls)).2 = .error ⟨s⟩)
    (hothers : ∀ call ∈ others, call.key ≠ k)
    (hclock : ∀ now ∈ others.filterMap Call.now?, now ≤ t + d) :
    ∃ b, (rl.run calls).lookup k = some b ∧ t - b.windowStart < rl.window ∧
      s = max ((rl.window - (t - b.windowStart)) / 10 ^ 9) 1 ∧
      ((rl.check (t + d) k (rl.run (calls ++ .check k t :: others))).2 = .ok () ↔
        b.windowStart + rl.window ≤ t + d) := by
  obtain ⟨b, hk, hfull, hopen, hs, hstays⟩ := of_refused hmax hrefused
  have hwindow : 0 < rl.window := Nat.lt_of_le_of_lt (Nat.zero_le _) hopen
  have hkept : Kept rl (t + d) k b (rl.run (calls ++ .check k t :: others)) := by
    rw [RateLimiter.run, List.foldl_append, List.foldl_cons]
    exact Kept.run hwindow hothers hclock (.inl hstays)
  exact ⟨b, hk, hopen, hs, hkept.check_iff hmax hfull hwindow⟩

/-- A second more is always enough, when the readings of the clock never decrease. -/
theorem check_after_second_more (hmax : 1 ≤ rl.maxAttempts)
    (hrefused : (rl.check t k (rl.run calls)).2 = .error ⟨s⟩)
    (hothers : ∀ call ∈ others, call.key ≠ k)
    (hmono : ((calls ++ .check k t :: others).filterMap Call.now?).Pairwise (· ≤ ·))
    (hclock : ∀ now ∈ others.filterMap Call.now?, now ≤ t + (s + 1) * 10 ^ 9) :
    (rl.check (t + (s + 1) * 10 ^ 9) k (rl.run (calls ++ .check k t :: others))).2 = .ok () := by
  obtain ⟨b, hk, hopen, hs, hagain⟩ := check_after_iff hmax hrefused hothers hclock
  rw [List.filterMap_append, List.pairwise_append] at hmono
  have hnow : ∀ now ∈ calls.filterMap Call.now?, now ≤ t := fun now h ↦
    hmono.2.2 now h t List.mem_cons_self
  have hagrees : Agrees rl t k (rl.run calls) (Single.run rl (callsOn k calls)) :=
    agrees_run k hmono.1 hnow
  have hstart : b.windowStart ≤ t := by
    rcases hagrees.lookup with hsingle | ⟨hnone, -⟩
    · exact hagrees.started b (hsingle.symm.trans hk)
    · cases hnone.symm.trans hk
  rw [hagain]
  omega

end Waiting

/-- **When waiting as long as one is told is enough.**  For every limiter that allows an attempt at
all, and every run: a check is refused and says to try again after `s` seconds, other keys have
calls until then, and then the check is made again.  It is allowed exactly if the window of the
key's bucket had at most one second left when the check was refused, or whole seconds. -/
theorem waiting_iff (rl : RateLimiter) (hmax : 1 ≤ rl.maxAttempts) (calls others : List Call)
    (k : String) (t s : Nat) (hrefused : (rl.check t k (rl.run calls)).2 = .error ⟨s⟩)
    (hothers : ∀ call ∈ others, call.key ≠ k)
    (hclock : ∀ now ∈ others.filterMap Call.now?, now ≤ t + s * 10 ^ 9) :
    (rl.check (t + s * 10 ^ 9) k (rl.run (calls ++ .check k t :: others))).2 = .ok () ↔
      ∃ b ∈ (rl.run calls).lookup k, b.windowStart + rl.window ≤ t + 10 ^ 9 ∨
        b.windowStart ≤ t ∧ 10 ^ 9 ∣ b.windowStart + rl.window - t := by
  obtain ⟨b, hk, hopen, hs, hagain⟩ := check_after_iff hmax hrefused hothers hclock
  rw [hagain, hk]
  simp only [Option.mem_some, exists_eq_left']
  omega

/-- One attempt a minute: refused at 10 s, with 50 s to wait. -/
theorem waiting_iff_minute :
    let rl := new 1 (60 * 10 ^ 9)
    let t := 10 * 10 ^ 9
    let others := [.check "bob" (20 * 10 ^ 9), .reset "bob"]
    (rl.check (t + 50 * 10 ^ 9) "alice"
        (rl.run ([.check "alice" 0] ++ .check "alice" t :: others))).2 = .ok () ↔
      ∃ b ∈ (rl.run [.check "alice" 0]).lookup "alice",
        b.windowStart + rl.window ≤ t + 10 ^ 9 ∨
          b.windowStart ≤ t ∧ 10 ^ 9 ∣ b.windowStart + rl.window - t :=
  waiting_iff (new 1 (60 * 10 ^ 9)) (by decide) [.check "alice" 0]
    [.check "bob" (20 * 10 ^ 9), .reset "bob"] "alice" (10 * 10 ^ 9) 50 (by decide +kernel)
    (by decide) (by decide)

/-- One attempt a minute: refused at 0.5 s with 59 s to wait, and again at 59.5 s. -/
theorem not_forall_waiting :
    ¬ ∀ (rl : RateLimiter) (calls others : List Call) (k : String) (t s : Nat),
      1 ≤ rl.maxAttempts →
      ((calls ++ .check k t :: others).filterMap Call.now?).Pairwise (· ≤ ·) →
      (rl.check t k (rl.run calls)).2 = .error ⟨s⟩ →
      (∀ call ∈ others, call.key ≠ k) →
      (∀ now ∈ others.filterMap Call.now?, now ≤ t + s * 10 ^ 9) →
      (rl.check (t + s * 10 ^ 9) k (rl.run (calls ++ .check k t :: others))).2 = .ok () := by
  intro h
  have hallowed := h (new 1 (60 * 10 ^ 9)) [.check "alice" 0] [] "alice" (5 * 10 ^ 8) 59
    (by decide) (by decide) (by decide +kernel) (by decide) (by decide)
  revert hallowed
  decide +kernel

end RateLimiter

end Vaiexia.Auth
