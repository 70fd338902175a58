import Mathlib.Algebra.Ring.Nat
import Mathlib.Data.List.Induction
import Mathlib.Data.List.Pairwise
import Vaiexia.Lib.HashMap

/-!
# The rate limiter

`crates/vaiexia-server/src/auth/ratelimit.rs`, with instants and durations in nanoseconds.  Buckets
are keyed by text that an attacker chooses, and stale ones are pruned when there are too many.

`Single` is the limiter that has one key to itself and never forgets.  A key that is not tracked
may have a bucket there, but only one whose window has elapsed: this is `Agrees`, which every call
on any key keeps, and `check_eq_single` follows.
-/

namespace Vaiexia.Auth

open Vaiexia.Lib

/-- `RateLimited`. -/
structure RateLimited where
  retryAfterSecs : Nat
deriving DecidableEq, Repr

/-- `Bucket`. -/
structure Bucket where
  attempts : Nat
  windowStart : Nat
deriving DecidableEq, Repr

/-- The settings of a `RateLimiter`. -/
structure RateLimiter where
  maxAttempts : Nat
  window : Nat
  maxTracked : Nat

/-- `DEFAULT_MAX_TRACKED`. -/
def defaultMaxTracked : Nat := 8192

namespace RateLimiter

/-- `RateLimiter::with_clock_and_cap`. -/
def withCap (maxAttempts window maxTracked : Nat) : RateLimiter where
  maxAttempts := maxAttempts
  window := window
  maxTracked := max maxTracked 1

/-- `RateLimiter::new`. -/
def new (maxAttempts window : Nat) : RateLimiter := withCap maxAttempts window defaultMaxTracked

section Check

variable (rl : RateLimiter) (now : Nat)

/-- Before a new key is tracked past the cap, buckets whose window has elapsed go. -/
def makeRoom (key : String) (buckets : HashMap String Bucket) : HashMap String Bucket :=
  if rl.maxTracked ≤ buckets.len ∧ (buckets.lookup key).isNone then
    buckets.retain fun _ b ↦ now - b.windowStart < rl.window
  else buckets

/-- A bucket whose window has elapsed starts again. -/
def renew (bucket : Bucket) : Bucket :=
  if rl.window ≤ now - bucket.windowStart then { attempts := 0, windowStart := now } else bucket

/-- One attempt against a bucket. -/
def charge (bucket : Bucket) : Bucket × Except RateLimited Unit :=
  if rl.maxAttempts ≤ bucket.attempts then
    let elapsed := now - bucket.windowStart
    let remaining := rl.window - elapsed
    (bucket, .error ⟨max (remaining / 10 ^ 9) 1⟩)
  else ({ bucket with attempts := bucket.attempts + 1 }, .ok ())

/-- `RateLimiter::check`. -/
def check (key : String) (buckets : HashMap String Bucket) :
    HashMap String Bucket × Except RateLimited Unit :=
  let buckets := rl.makeRoom now key buckets
  let bucket := (buckets.lookup key).getD { attempts := 0, windowStart := now }
  let (bucket, result) := rl.charge now (rl.renew now bucket)
  (buckets.insert key bucket, result)

/-- `RateLimiter::reset`. -/
def reset (key : String) (buckets : HashMap String Bucket) : HashMap String Bucket :=
  buckets.erase key

end Check

/-- Making room leaves a key its bucket, or drops one whose window has elapsed. -/
theorem lookup_makeRoom (rl : RateLimiter) (now : Nat) (key k : String)
    (buckets : HashMap String Bucket) :
    (rl.makeRoom now key buckets).lookup k = buckets.lookup k ∨
      (rl.makeRoom now key buckets).lookup k = none ∧
        ∃ b, buckets.lookup k = some b ∧ rl.window ≤ now - b.windowStart := by
  rw [makeRoom]
  split
  · rw [HashMap.lookup_retain]
    cases buckets.lookup k with
    | none => exact .inl rfl
    | some b =>
        by_cases hlive : now - b.windowStart < rl.window
        · exact .inl (Option.filter_some_pos (decide_eq_true hlive))
        · refine .inr ⟨?_, b, rfl, Nat.le_of_not_lt hlive⟩
          rw [Option.filter_some_neg (by simpa using hlive)]
  · exact .inl rfl

/-- A call, with the reading of the clock if it makes one. -/
inductive Call where
  | check (key : String) (now : Nat)
  | reset (key : String)

/-- The key of a call. -/
def Call.key : Call → String
  | check key _ => key
  | reset key => key

/-- The reading of the clock. -/
def Call.now? : Call → Option Nat
  | check _ now => some now
  | reset _ => none

/-- What a call leaves of the buckets. -/
def step (rl : RateLimiter) (buckets : HashMap String Bucket) : Call → HashMap String Bucket
  | .check key now => (rl.check now key buckets).1
  | .reset key => reset key buckets

/-- The buckets after a sequence of calls. -/
def run (rl : RateLimiter) (calls : List Call) : HashMap String Bucket := calls.foldl rl.step ∅

/-! ## One key alone -/

/-- The window that a check counts against: the open one, or a new one if none is open or the last
one has elapsed. -/
def Single.current (rl : RateLimiter) (now : Nat) : Option Bucket → Bucket
  | some bucket => if now < bucket.windowStart + rl.window then bucket else ⟨0, now⟩
  | none => ⟨0, now⟩

/-- A check by a limiter that has the key to itself: it allows so many attempts in a window, and
then says how long the window has to go. -/
def Single.check (rl : RateLimiter) (now : Nat) (bucket : Option Bucket) :
    Bucket × Except RateLimited Unit :=
  let bucket := Single.current rl now bucket
  if bucket.attempts < rl.maxAttempts then (⟨bucket.attempts + 1, bucket.windowStart⟩, .ok ())
  else (bucket, .error ⟨max ((bucket.windowStart + rl.window - now) / 10 ^ 9) 1⟩)

/-- What a call leaves of its bucket. -/
def Single.step (rl : RateLimiter) (bucket : Option Bucket) : Call → Option Bucket
  | .check _ now => some (Single.check rl now bucket).1
  | .reset _ => none

/-- Its bucket after a sequence of calls. -/
def Single.run (rl : RateLimiter) (calls : List Call) : Option Bucket :=
  calls.foldl (Single.step rl) none

/-- A window has no more attempts than are allowed. -/
theorem Single.attempts_le (rl : RateLimiter) (calls : List Call) :
    ∀ b ∈ Single.run rl calls, b.attempts ≤ rl.maxAttempts := by
  induction calls using List.reverseRecOn with
  | nil => exact fun b h ↦ nomatch h
  | append_singleton calls call ih =>
      rw [Single.run, List.foldl_append]
      cases call with
      | reset key => exact fun b h ↦ nomatch h
      | check key now =>
          rintro b ⟨⟩
          have hcur : (current rl now (run rl calls)).attempts ≤ rl.maxAttempts := by
            unfold current
            split
            · rename_i b h
              split
              · exact ih b h
              · exact Nat.zero_le _
            · exact Nat.zero_le _
          change (check rl now (run rl calls)).1.attempts ≤ rl.maxAttempts
          unfold check
          dsimp only
          split
          · rename_i hlt
            exact hlt
          · exact hcur

/-! ## The buckets of all keys against it -/

section Agree

variable {rl : RateLimiter} {t now : Nat} {k key : String} {buckets : HashMap String Bucket}
  {b : Option Bucket}

/-- At `t`, what is tracked of a key is the bucket of the limiter that has it to itself, unless that
bucket's window has elapsed and the key is no longer tracked. -/
structure Agrees (rl : RateLimiter) (t : Nat) (k : String) (buckets : HashMap String Bucket)
    (b : Option Bucket) : Prop where
  lookup : buckets.lookup k = b ∨
    buckets.lookup k = none ∧ ∃ b', b = some b' ∧ b'.windowStart + rl.window ≤ t
  started : ∀ b' ∈ b, b'.windowStart ≤ t

theorem Agrees.mono (h : Agrees rl t k buckets b) (ht : t ≤ now) : Agrees rl now k buckets b where
  lookup := h.lookup.imp_right fun ⟨hn, b', hb, he⟩ ↦ ⟨hn, b', hb, Nat.le_trans he ht⟩
  started := fun b' hb ↦ Nat.le_trans (h.started b' hb) ht

/-- Making room for another key drops a bucket only when its window has elapsed. -/
theorem Agrees.makeRoom (h : Agrees rl now k buckets b) :
    Agrees rl now k (rl.makeRoom now key buckets) b where
  lookup := by
    rcases rl.lookup_makeRoom now key k buckets with hsame | ⟨hnone, b', hl, hdead⟩
    · rw [hsame]
      exact h.lookup
    · have hb : b = some b' := by
        rcases h.lookup with h | ⟨h, -⟩
        · exact h.symm.trans hl
        · exact nomatch hl.symm.trans h
      have hstart := h.started b' hb
      exact .inr ⟨hnone, b', hb, by omega⟩
  started := h.started

/-- The bucket that a check counts against is the window of the limiter that has the key to
itself. -/
theorem Agrees.current (h : Agrees rl now k buckets b) :
    rl.renew now ((buckets.lookup k).getD ⟨0, now⟩) = Single.current rl now b := by
  have hnew : rl.renew now ⟨0, now⟩ = ⟨0, now⟩ := by
    unfold renew
    split <;> rfl
  rcases h.lookup with hl | ⟨hl, b', rfl, helapsed⟩
  · rw [hl]
    cases b with
    | none => exact hnew
    | some b' =>
        have hstart := h.started b' rfl
        change rl.renew now b' = if now < b'.windowStart + rl.window then b' else ⟨0, now⟩
        unfold renew
        split
        · rw [if_neg (by omega)]
        · rw [if_pos (by omega)]
  · rw [hl]
    exact hnew.trans (if_neg (Nat.not_lt.mpr helapsed)).symm

theorem Single.current_started (h : ∀ b' ∈ b, b'.windowStart ≤ now) :
    (Single.current rl now b).windowStart ≤ now := by
  unfold current
  split
  · split
    · exact h _ rfl
    · exact le_refl now
  · exact le_refl now

/-- One attempt against a bucket whose window started in the past. -/
theorem charge_eq {bucket : Bucket} (h : bucket.windowStart ≤ now) :
    rl.charge now bucket =
      if bucket.attempts < rl.maxAttempts then (⟨bucket.attempts + 1, bucket.windowStart⟩, .ok ())
      else (bucket, .error ⟨max ((bucket.windowStart + rl.window - now) / 10 ^ 9) 1⟩) := by
  have hremaining : rl.window - (now - bucket.windowStart) =
      bucket.windowStart + rl.window - now := by omega
  unfold charge
  dsimp only
  rw [hremaining]
  by_cases hlt : bucket.attempts < rl.maxAttempts
  · rw [if_neg (by omega), if_pos hlt]
  · rw [if_pos (by omega), if_neg hlt]

/-- A check of the key itself: the bucket it leaves and its result. -/
theorem Agrees.check (h : Agrees rl now k buckets b) :
    rl.check now k buckets =
      ((rl.makeRoom now k buckets).insert k (Single.check rl now b).1,
        (Single.check rl now b).2) := by
  have hcharge : rl.charge now (rl.renew now (((rl.makeRoom now k buckets).lookup k).getD
      ⟨0, now⟩)) = Single.check rl now b := by
    rw [h.makeRoom.current, charge_eq (Single.current_started h.started)]
    rfl
  unfold RateLimiter.check
  dsimp only
  rw [hcharge]

theorem Single.check_started (h : ∀ b' ∈ b, b'.windowStart ≤ now) :
    (Single.check rl now b).1.windowStart ≤ now := by
  have hstart : (Single.current rl now b).windowStart ≤ now := Single.current_started h
  unfold Single.check
  dsimp only
  split <;> exact hstart

/-- A call on the key keeps the agreement. -/
theorem Agrees.step {call : Call} (h : Agrees rl t call.key buckets b)
    (hclock : ∀ now ∈ call.now?, t ≤ now) :
    Agrees rl (call.now?.getD t) call.key (rl.step buckets call) (Single.step rl b call) := by
  cases call with
  | reset key => exact ⟨.inl (AList.lookup_erase _ _), fun b' hb ↦ nomatch hb⟩
  | check key now =>
      change Agrees rl t key buckets b at h
      have h' := h.mono (hclock now rfl)
      refine ⟨.inl ?_, ?_⟩
      · change (rl.check now key buckets).1.lookup key = some (Single.check rl now b).1
        rw [h'.check]
        exact AList.lookup_insert _
      · rintro b' ⟨⟩
        exact Single.check_started h'.started

/-- A call on another key keeps it too. -/
theorem Agrees.step_other (h : Agrees rl t k buckets b) {call : Call} (hkey : call.key ≠ k)
    (hclock : ∀ now ∈ call.now?, t ≤ now) :
    Agrees rl (call.now?.getD t) k (rl.step buckets call) b := by
  cases call with
  | reset key =>
      have hlookup : (reset key buckets).lookup k = buckets.lookup k :=
        AList.lookup_erase_ne (Ne.symm hkey)
      refine ⟨?_, h.started⟩
      change (reset key buckets).lookup k = b ∨ (reset key buckets).lookup k = none ∧ _
      rw [hlookup]
      exact h.lookup
  | check key now =>
      have h' : Agrees rl now k (rl.makeRoom now key buckets) b :=
        (h.mono (hclock now rfl)).makeRoom
      refine ⟨?_, h'.started⟩
      have hlookup : (rl.check now key buckets).1.lookup k =
          (rl.makeRoom now key buckets).lookup k := AList.lookup_insert_ne (Ne.symm hkey)
      change (rl.check now key buckets).1.lookup k = b ∨
        (rl.check now key buckets).1.lookup k = none ∧ _
      rw [hlookup]
      exact h'.lookup

/-- The calls on one key. -/
def callsOn (k : String) (calls : List Call) : List Call := calls.filter (·.key = k)

/-- After any calls on any keys, the agreement holds from the last reading of the clock. -/
theorem agrees_run (k : String) {calls : List Call}
    (hclock : (calls.filterMap Call.now?).Pairwise (· ≤ ·))
    (hnow : ∀ t ∈ calls.filterMap Call.now?, t ≤ now) :
    Agrees rl now k (rl.run calls) (Single.run rl (callsOn k calls)) := by
  induction calls using List.reverseRecOn generalizing now with
  | nil => exact ⟨.inl rfl, fun b' hb ↦ nomatch hb⟩
  | append_singleton calls call ih =>
      rw [List.filterMap_append, List.pairwise_append] at hclock
      rw [List.filterMap_append] at hnow
      -- up to the last call, the readings are before its own, if it makes one
      have hlast : ∀ t ∈ calls.filterMap Call.now?, t ≤ call.now?.getD now := by
        intro t ht
        cases hcall : call.now? with
        | none => exact hnow t (List.mem_append_left _ ht)
        | some now' =>
            refine hclock.2.2 t ht now' ?_
            rw [List.mem_filterMap]
            exact ⟨call, List.mem_singleton.mpr rfl, hcall⟩
      have hagrees := ih hclock.1 hlast
      have hlater : call.now?.getD now ≤ now := by
        cases hcall : call.now? with
        | none => exact le_refl now
        | some now' =>
            refine hnow now' (List.mem_append_right _ ?_)
            rw [List.mem_filterMap]
            exact ⟨call, List.mem_singleton.mpr rfl, hcall⟩
      have hown : ∀ now' ∈ call.now?, call.now?.getD now ≤ now' := by
        rintro now' hcall
        rw [Option.mem_def.mp hcall]
        exact le_refl now'
      have hgetD : call.now?.getD (call.now?.getD now) = call.now?.getD now := by
        cases call.now? <;> rfl
      rw [run, List.foldl_append, callsOn, List.filter_append]
      by_cases hkey : call.key = k
      · subst hkey
        have hstep := hagrees.step hown
        rw [hgetD] at hstep
        rw [List.filter_cons_of_pos (by simp), Single.run, List.foldl_append]
        exact hstep.mono hlater
      · have hstep := hagrees.step_other hkey hown
        rw [hgetD] at hstep
        rw [List.filter_cons_of_neg (by simpa using hkey), List.filter_nil, List.append_nil]
        exact hstep.mono hlater

/-- The result of a check after any calls on any keys. -/
theorem check_run (rl : RateLimiter) {calls : List Call} {k : String}
    (hclock : ((calls ++ [Call.check k now]).filterMap Call.now?).Pairwise (· ≤ ·)) :
    (rl.check now k (rl.run calls)).2 =
      (Single.check rl now (Single.run rl (callsOn k calls))).2 := by
  rw [List.filterMap_append, List.pairwise_append] at hclock
  have hnow : ∀ t ∈ calls.filterMap Call.now?, t ≤ now := fun t ht ↦
    hclock.2.2 t ht now (List.mem_singleton.mpr rfl)
  rw [(agrees_run k hclock.1 hnow).check]

end Agree

/-- **The limiter is independent per-key counters.**  After any calls on any keys whose readings of
the clock never decrease, a check has the result that it has in the limiter which sees only the
calls on its key and never forgets one, and there no window has more attempts than are allowed.  So
another cap or other calls on the other keys would not have changed the result. -/
theorem check_eq_single (rl : RateLimiter) (calls : List Call) (k : String) (now : Nat)
    (hclock : ((calls ++ [Call.check k now]).filterMap Call.now?).Pairwise (· ≤ ·)) :
    (rl.check now k (rl.run calls)).2 = (Single.check rl now (Single.run rl (callsOn k calls))).2 ∧
      (Single.check rl now (Single.run rl (callsOn k calls))).1.attempts ≤ rl.maxAttempts ∧
      ∀ (rl' : RateLimiter) (calls' : List Call), rl'.maxAttempts = rl.maxAttempts →
        rl'.window = rl.window → callsOn k calls' = callsOn k calls →
        ((calls' ++ [Call.check k now]).filterMap Call.now?).Pairwise (· ≤ ·) →
        (rl'.check now k (rl'.run calls')).2 = (rl.check now k (rl.run calls)).2 := by
  refine ⟨check_run rl hclock, ?_, fun rl' calls' hmax hwindow hcalls hclock' ↦ ?_⟩
  · refine Single.attempts_le rl (callsOn k calls ++ [Call.check k now]) _ ?_
    rw [Single.run, List.foldl_append]
    rfl
  · rw [check_run rl hclock, check_run rl' hclock', hcalls]
    obtain ⟨maxAttempts, window, maxTracked⟩ := rl
    obtain ⟨maxAttempts', window', maxTracked'⟩ := rl'
    cases hmax
    cases hwindow
    rfl

/-- Two attempts in a window of ten, with room for two keys: the third key makes the limiter drop
the first one, whose window has elapsed. -/
theorem check_eq_single_evicted :
    let rl := withCap 2 10 2
    let calls := [Call.check "a" 0, .check "b" 5, .check "b" 6, .check "b" 7, .check "c" 11]
    (rl.run calls).lookup "a" = none ∧
      (rl.check 12 "b" (rl.run calls)).2 =
        (Single.check rl 12 (Single.run rl (callsOn "b" calls))).2 ∧
      (rl.check 12 "b" (rl.run calls)).2 = .error ⟨1⟩ :=
  ⟨by decide, (check_eq_single _ _ _ _ (by decide)).1, by decide⟩

end RateLimiter

end Vaiexia.Auth
