import Mathlib.Data.List.Nodup
import Mathlib.Data.List.Perm.Subperm
import Vaiexia.Api.LoginOracle
import Vaiexia.Lib.Windows

/-!
# Guessing passwords

Logins are served at the same time.  Each reads the clock, waits for the limiter, looks its account
up in the snapshot that is published then, compares the password, adds the capability, and clears
the bucket of its account; in between other ones do the same under any names, so that buckets are
pruned, and the store changes.

`guesses_le` says how many passwords can be tried in any time for the accounts of a name.  It counts
with the window of the limiter less what a request may wait between its reading of the clock and the
buckets: `check` takes its reading before it locks them.
-/

namespace Vaiexia.Api

open Vaiexia.Lib Vaiexia.Audit Vaiexia.Auth

/-- A login request, and what it finds. -/
structure LoginRequest where
  params : LoginParams
  readings : Readings
  bytes : TokenBytes
  fault : Option StoreError

/-- `login` for a request. -/
def LoginRequest.login (X : TokenCrypto) (verifyPassword : String → String → Except String Bool)
    (req : LoginRequest) (checked : Except Nat Unit) (snap : IdentitySnapshot) (st : FileStore) :
    FileStore × List AuditEvent × Except Diagnostic LoginResponse :=
  Api.login X verifyPassword checked req.readings req.bytes req.fault req.params snap st

/-- How far a request has come. -/
inductive LoginStage where
  | new
  /-- It has read the clock, and waits for the buckets. -/
  | timed (read : Nat)
  | admitted
  /-- It has the snapshot, and compares the password. -/
  | looked (snap : IdentitySnapshot)
  /-- The capability is added, the bucket not yet cleared. -/
  | succeeded (events : List AuditEvent) (resp : LoginResponse)
  | returned (result : Except Diagnostic LoginResponse)

/-- What is noted of a request. -/
inductive LoginMark where
  | admitted (t : Nat)
  | compared (phc : String)
  | cleared (t : Nat)

/-- The limiter and the store, with the requests; and what is noted of them, which the daemon does
not have. -/
structure Logins (ι : Type) where
  now : Nat
  buckets : HashMap String Bucket
  store : FileStore
  trail : List AuditEvent
  stage : ι → LoginStage
  marks : List (ι × LoginMark)

namespace Logins

variable {ι : Type}

/-- A daemon that was just started. -/
def new (store : FileStore) : Logins ι where
  now := 0
  buckets := ∅
  store := store
  trail := []
  stage := fun _ ↦ .new
  marks := []

/-- The comparison that a request makes in a snapshot, if it finds an account there. -/
def comparisons (req : LoginRequest) (snap : IdentitySnapshot) : List LoginMark :=
  ((snap.lookupAccount req.params.name).map fun acc ↦ .compared acc.passwordPhc).toList

/-- Marks of a request are noted. -/
def note (i : ι) (more : List LoginMark) (marks : List (ι × LoginMark)) : List (ι × LoginMark) :=
  marks ++ more.map (Prod.mk i)

section Steps

variable [DecidableEq ι] (X : TokenCrypto)
  (verifyPassword : String → String → Except String Bool) (rl : RateLimiter) (lag : Nat)
  (reqs : ι → LoginRequest)

/-- What can happen.  `login` is cut where another request can come in between. -/
inductive Step : Logins ι → Logins ι → Prop
  | tick {s : Logins ι} (n : Nat) : Step s { s with now := s.now + n }
  /-- Anything else that changes the store. -/
  | store {s : Logins ι} (st : FileStore) : Step s { s with store := st }
  | read {s : Logins ι} {i : ι} (h : s.stage i = .new) :
      Step s { s with stage := Function.update s.stage i (.timed s.now) }
  | pass {s : Logins ι} {i : ι} {read : Nat} {buckets : HashMap String Bucket}
      (h : s.stage i = .timed read) (hlag : s.now ≤ read + lag)
      (hcheck : rl.check read (reqs i).params.name s.buckets = (buckets, .ok ())) :
      Step s
        { s with
          buckets := buckets
          stage := Function.update s.stage i .admitted
          marks := note i [.admitted s.now] s.marks }
  | refuse {s : Logins ι} {i : ι} {read : Nat} {buckets : HashMap String Bucket}
      {limited : RateLimited} {st : FileStore} {events : List AuditEvent} {d : Diagnostic}
      (h : s.stage i = .timed read) (hlag : s.now ≤ read + lag)
      (hcheck : rl.check read (reqs i).params.name s.buckets = (buckets, .error limited))
      (hlogin : (reqs i).login X verifyPassword (.error limited.retryAfterSecs) s.store.snap
        s.store = (st, events, .error d)) :
      Step s
        { s with
          buckets := buckets
          store := st
          trail := s.trail ++ events
          stage := Function.update s.stage i (.returned (.error d)) }
  | look {s : Logins ι} {i : ι} (h : s.stage i = .admitted) :
      Step s { s with stage := Function.update s.stage i (.looked s.store.snap) }
  | fail {s : Logins ι} {i : ι} {snap : IdentitySnapshot} {st : FileStore}
      {events : List AuditEvent} {d : Diagnostic} (h : s.stage i = .looked snap)
      (hlogin : (reqs i).login X verifyPassword (.ok ()) snap s.store =
        (st, events, .error d)) :
      Step s
        { s with
          store := st
          trail := s.trail ++ events
          stage := Function.update s.stage i (.returned (.error d))
          marks := note i (comparisons (reqs i) snap) s.marks }
  | succeed {s : Logins ι} {i : ι} {snap : IdentitySnapshot} {st : FileStore}
      {events : List AuditEvent} {resp : LoginResponse} (h : s.stage i = .looked snap)
      (hlogin : (reqs i).login X verifyPassword (.ok ()) snap s.store =
        (st, events, .ok resp)) :
      Step s
        { s with
          store := st
          stage := Function.update s.stage i (.succeeded events resp)
          marks := note i (comparisons (reqs i) snap) s.marks }
  /-- The bucket is cleared, and then the success is recorded. -/
  | clear {s : Logins ι} {i : ι} {events : List AuditEvent} {resp : LoginResponse}
      (h : s.stage i = .succeeded events resp) :
      Step s
        { s with
          buckets := RateLimiter.reset (reqs i).params.name s.buckets
          trail := s.trail ++ events
          stage := Function.update s.stage i (.returned (.ok resp))
          marks := note i [.cleared s.now] s.marks }

/-- Any interleaving. -/
abbrev Run : Logins ι → Logins ι → Prop :=
  Relation.ReflTransGen (Step X verifyPassword rl lag reqs)

end Steps

/-! ## One request -/

section One

variable {X : TokenCrypto} {env : Env} {w : World} {p : LoginParams}
  {buckets : HashMap String Bucket} {checked : Except RateLimited Unit} {st : FileStore}
  {events : List AuditEvent}

theorem loginLimited_error {d : Diagnostic}
    (hcheck : env.limiter.check env.limiterNow p.name w.buckets = (buckets, checked))
    (hlogin : login X env.verifyPassword (checked.mapError RateLimited.retryAfterSecs) env.readings
      env.bytes env.fault p w.store.snap w.store = (st, events, .error d)) :
    loginLimited X env p w = ({ w with buckets }.setStore st, events, .error d) := by
  unfold loginLimited
  rw [hcheck]
  dsimp only
  rw [hlogin]

theorem loginLimited_ok {resp : LoginResponse}
    (hcheck : env.limiter.check env.limiterNow p.name w.buckets = (buckets, checked))
    (hlogin : login X env.verifyPassword (checked.mapError RateLimited.retryAfterSecs) env.readings
      env.bytes env.fault p w.store.snap w.store = (st, events, .ok resp)) :
    loginLimited X env p w =
      ({ w with buckets := RateLimiter.reset p.name buckets }.setStore st, events, .ok resp) := by
  unfold loginLimited
  rw [hcheck]
  dsimp only
  rw [hlogin]

/-- A request that nothing comes in between of is `loginLimited`. -/
theorem run_loginLimited [DecidableEq ι] {lag : Nat} {reqs : ι → LoginRequest} {s : Logins ι}
    {i : ι} (hreq : reqs i = ⟨p, env.readings, env.bytes, env.fault⟩)
    (hnew : s.stage i = .new) (hnow : s.now = env.limiterNow) (hbuckets : s.buckets = w.buckets)
    (hstore : s.store = w.store) :
    ∃ s', Run X env.verifyPassword env.limiter lag reqs s s' ∧
      s'.buckets = (loginLimited X env p w).1.buckets ∧
      s'.store = (loginLimited X env p w).1.store ∧
      s'.trail = s.trail ++ (loginLimited X env p w).2.1 ∧
      s'.stage i = .returned (loginLimited X env p w).2.2 := by
  have hread : Run X env.verifyPassword env.limiter lag reqs s _ := .single (.read hnew)
  have htimed := Function.update_self i (LoginStage.timed s.now) s.stage
  have hname : (reqs i).params.name = p.name := by rw [hreq]
  obtain ⟨⟨buckets, checked⟩, hcheck⟩ :
      ∃ r, env.limiter.check env.limiterNow p.name w.buckets = r := ⟨_, rfl⟩
  have hcheck' : env.limiter.check s.now (reqs i).params.name s.buckets = (buckets, checked) := by
    rw [hnow, hname, hbuckets, hcheck]
  obtain ⟨⟨st, events, result⟩, hlogin⟩ :
      ∃ r, login X env.verifyPassword (checked.mapError RateLimited.retryAfterSecs) env.readings
        env.bytes env.fault p w.store.snap w.store = r := ⟨_, rfl⟩
  have hlogin' :
      (reqs i).login X env.verifyPassword (checked.mapError RateLimited.retryAfterSecs)
        s.store.snap s.store = (st, events, result) := by
    rw [hreq, hstore]
    exact hlogin
  cases checked with
  | error limited =>
      cases result with
      | ok resp => cases hlogin
      | error d =>
          rw [loginLimited_error hcheck hlogin]
          exact ⟨_, hread.tail (.refuse htimed (Nat.le_add_right _ _) hcheck' hlogin'), rfl, rfl,
            rfl, Function.update_self _ _ _⟩
  | ok checked =>
      have hpassed := hread.tail (.pass htimed (Nat.le_add_right _ _) hcheck')
      have hlooked := hpassed.tail (.look (Function.update_self _ _ _))
      cases result with
      | error d =>
          rw [loginLimited_error hcheck hlogin]
          exact ⟨_, hlooked.tail (.fail (Function.update_self _ _ _) hlogin'), rfl, rfl, rfl,
            Function.update_self _ _ _⟩
      | ok resp =>
          have hdone := (hlooked.tail (.succeed (Function.update_self _ _ _) hlogin')).tail
            (.clear (Function.update_self _ _ _))
          rw [loginLimited_ok hcheck hlogin]
          exact ⟨_, hdone, by rw [← hname]; rfl, rfl, rfl, Function.update_self _ _ _⟩

end One

/-! ## The windows of a name -/

/-- The limiter as a counter of attempts: a window begins when the buckets are locked, which is up
to `lag` later than the bucket says. -/
def meter (rl : RateLimiter) (lag : Nat) : Meter where
  limit := rl.maxAttempts
  window := rl.window - lag

/-- A bucket stands for a window. -/
inductive Tracks (lag : Nat) : Option Bucket → Option Meter.Opened → Prop
  | none : Tracks lag none none
  | some {bucket : Bucket} {start : Nat} (hle : bucket.windowStart ≤ start)
      (hlag : start ≤ bucket.windowStart + lag) :
      Tracks lag (some bucket) (some ⟨start, bucket.attempts⟩)

/-- The buckets are those of a limiter that has noted these marks of a name. -/
def Metered (rl : RateLimiter) (lag now : Nat) (name : String) (buckets : HashMap String Bucket)
    (marks : List Meter.Mark) : Prop :=
  ∃ o, (meter rl lag).Run now o marks ∧ Tracks lag (buckets.lookup name) o

section Metered

variable {rl : RateLimiter} {lag now read : Nat} {name key : String}
  {buckets buckets' : HashMap String Bucket} {marks : List Meter.Mark}

theorem Metered.later {now' : Nat} (h : Metered rl lag now name buckets marks)
    (hle : now ≤ now') : Metered rl lag now' name buckets marks := by
  obtain ⟨o, hrun, htracks⟩ := h
  exact ⟨o, hrun.later hle, htracks⟩

/-- A bucket that is pruned is one whose window has elapsed. -/
theorem Metered.makeRoom (hlag : lag < rl.window) (h : Metered rl lag now name buckets marks)
    (hread : read ≤ now) (key : String) :
    Metered rl lag now name (rl.makeRoom read key buckets) marks := by
  obtain ⟨o, hrun, htracks⟩ := h
  rcases rl.lookup_makeRoom read key name buckets with hsame | ⟨hnone, bucket, hlookup, helapsed⟩
  · exact ⟨o, hrun, hsame ▸ htracks⟩
  · rw [hlookup] at htracks
    cases htracks with
    | some hle hstart =>
        refine ⟨none, hrun.expire ?_, hnone ▸ .none⟩
        dsimp only [meter]
        omega

/-- A check counts against a window that is open. -/
theorem Metered.renew (hlag : lag < rl.window) (h : Metered rl lag now name buckets marks)
    (hread : read ≤ now) (hwaited : now ≤ read + lag) :
    ∃ o, (meter rl lag).Run now (some o) marks ∧
      Tracks lag (some (rl.renew read ((buckets.lookup name).getD ⟨0, read⟩))) (some o) := by
  have hbegin : Tracks lag (some ⟨0, read⟩) (some ⟨now, 0⟩) := .some hread hwaited
  obtain ⟨o, hrun, htracks⟩ := h
  cases hlookup : buckets.lookup name with
  | none =>
      rw [hlookup] at htracks
      cases htracks
      refine ⟨_, hrun.begin, ?_⟩
      have hnew : rl.renew read ⟨0, read⟩ = ⟨0, read⟩ := by
        unfold RateLimiter.renew
        split <;> rfl
      rw [Option.getD_none, hnew]
      exact hbegin
  | some bucket =>
      rw [hlookup] at htracks
      cases htracks with
      | @some _ start hle hstart =>
          rw [Option.getD_some]
          unfold RateLimiter.renew
          split
          · rename_i helapsed
            refine ⟨_, (hrun.expire ?_).begin, hbegin⟩
            dsimp only [meter]
            omega
          · exact ⟨_, hrun, .some hle hstart⟩

/-- A check of the name that allows an attempt. -/
theorem Metered.check_ok (hlag : lag < rl.window) (h : Metered rl lag now name buckets marks)
    (hread : read ≤ now) (hwaited : now ≤ read + lag)
    (hcheck : rl.check read name buckets = (buckets', .ok ())) :
    Metered rl lag now name buckets' (marks ++ [.admitted now]) := by
  obtain ⟨o, hrun, htracks⟩ := (h.makeRoom hlag hread name).renew hlag hread hwaited
  unfold RateLimiter.check RateLimiter.charge at hcheck
  dsimp only at hcheck
  split at hcheck
  · cases hcheck
  · rename_i hused
    cases hcheck
    generalize rl.renew read _ = bucket at htracks hused ⊢
    cases htracks with
    | some hle hstart =>
        refine ⟨_, hrun.attempt (Nat.lt_of_not_le hused), ?_⟩
        rw [HashMap.lookup_insert_eq, if_pos rfl]
        exact .some hle hstart

/-- One that refuses it. -/
theorem Metered.check_error (hlag : lag < rl.window) (h : Metered rl lag now name buckets marks)
    (hread : read ≤ now) (hwaited : now ≤ read + lag) {limited : RateLimited}
    (hcheck : rl.check read name buckets = (buckets', .error limited)) :
    Metered rl lag now name buckets' marks := by
  obtain ⟨o, hrun, htracks⟩ := (h.makeRoom hlag hread name).renew hlag hread hwaited
  unfold RateLimiter.check RateLimiter.charge at hcheck
  dsimp only at hcheck
  split at hcheck
  · cases hcheck
    refine ⟨_, hrun, ?_⟩
    rw [HashMap.lookup_insert_eq, if_pos rfl]
    exact htracks
  · cases hcheck

/-- A check of another name. -/
theorem Metered.check_other (hlag : lag < rl.window) (h : Metered rl lag now name buckets marks)
    (hread : read ≤ now) (hne : name ≠ key) {result : Except RateLimited Unit}
    (hcheck : rl.check read key buckets = (buckets', result)) :
    Metered rl lag now name buckets' marks := by
  obtain ⟨o, hrun, htracks⟩ := h.makeRoom hlag hread key
  refine ⟨o, hrun, ?_⟩
  have hbuckets : buckets' = (rl.check read key buckets).1 := by rw [hcheck]
  have hlookup : buckets'.lookup name = (rl.makeRoom read key buckets).lookup name := by
    rw [hbuckets]
    exact AList.lookup_insert_ne hne
  rw [hlookup]
  exact htracks

theorem Metered.reset (h : Metered rl lag now name buckets marks) :
    Metered rl lag now name (RateLimiter.reset name buckets) (marks ++ [.cleared now]) := by
  obtain ⟨o, hrun, -⟩ := h
  refine ⟨none, hrun.clear, ?_⟩
  have hnone : (RateLimiter.reset name buckets).lookup name = none := AList.lookup_erase _ _
  rw [hnone]
  exact .none

theorem Metered.reset_other (h : Metered rl lag now name buckets marks) (hne : name ≠ key) :
    Metered rl lag now name (RateLimiter.reset key buckets) marks := by
  obtain ⟨o, hrun, htracks⟩ := h
  refine ⟨o, hrun, ?_⟩
  have hlookup : (RateLimiter.reset key buckets).lookup name = buckets.lookup name :=
    AList.lookup_erase_ne hne
  rw [hlookup]
  exact htracks

end Metered

/-! ## Marks -/

/-- What a mark says of the windows. -/
def windowMark : LoginMark → Option Meter.Mark
  | .admitted t => some (.admitted t)
  | .compared _ => none
  | .cleared t => some (.cleared t)

/-- The windows of a name, by the marks of the requests for it. -/
def marksOf (reqs : ι → LoginRequest) (name : String) (marks : List (ι × LoginMark)) :
    List Meter.Mark :=
  marks.filterMap fun m ↦ if (reqs m.1).params.name = name then windowMark m.2 else none

/-- The marks of a request. -/
def ownMarks [DecidableEq ι] (i : ι) (marks : List (ι × LoginMark)) : List LoginMark :=
  (marks.filter (·.1 = i)).map Prod.snd

/-- The requests that have compared a password with the hash of an account of the name. -/
def comparers (reqs : ι → LoginRequest) (name : String) (marks : List (ι × LoginMark)) : List ι :=
  marks.filterMap fun
    | (i, .compared _) => if (reqs i).params.name = name then some i else none
    | _ => none

/-- How far a request has come, by its marks: it has compared a password at most once, after it was
admitted, and has cleared the bucket only if that was right. -/
inductive Told (verifyPassword : String → String → Except String Bool) (p : LoginParams) :
    List LoginMark → LoginStage → Prop
  | new : Told verifyPassword p [] .new
  | timed (read : Nat) : Told verifyPassword p [] (.timed read)
  | refused (d : Diagnostic) : Told verifyPassword p [] (.returned (.error d))
  | admitted (t : Nat) : Told verifyPassword p [.admitted t] .admitted
  | looked (t : Nat) (snap : IdentitySnapshot) :
      Told verifyPassword p [.admitted t] (.looked snap)
  | unknown (t : Nat) (d : Diagnostic) :
      Told verifyPassword p [.admitted t] (.returned (.error d))
  | failed (t : Nat) (phc : String) (d : Diagnostic) :
      Told verifyPassword p [.admitted t, .compared phc] (.returned (.error d))
  | succeeded (t : Nat) (phc : String) (hright : verifyPassword p.password phc = .ok true)
      (events : List AuditEvent) (resp : LoginResponse) :
      Told verifyPassword p [.admitted t, .compared phc] (.succeeded events resp)
  | cleared (t : Nat) (phc : String) (hright : verifyPassword p.password phc = .ok true)
      (t' : Nat) (resp : LoginResponse) :
      Told verifyPassword p [.admitted t, .compared phc, .cleared t'] (.returned (.ok resp))

section Marks

variable {reqs : ι → LoginRequest} {name : String} {i j : ι} {marks : List (ι × LoginMark)}
  {more : List LoginMark}

theorem marksOf_note : marksOf reqs name (note i more marks) = marksOf reqs name marks ++
    if (reqs i).params.name = name then more.filterMap windowMark else [] := by
  unfold marksOf note
  rw [List.filterMap_append, List.filterMap_map]
  congr 1
  split
  · rename_i hname
    exact List.filterMap_congr fun m _ ↦ if_pos hname
  · rename_i hname
    exact List.filterMap_eq_nil_iff.mpr fun m _ ↦ if_neg hname

theorem ownMarks_note_self [DecidableEq ι] :
    ownMarks i (note i more marks) = ownMarks i marks ++ more := by
  have hall : (more.map (Prod.mk i)).filter (·.1 = i) = more.map (Prod.mk i) := by
    rw [List.filter_eq_self]
    intro m hm
    obtain ⟨_, -, rfl⟩ := List.mem_map.mp hm
    exact decide_eq_true rfl
  unfold ownMarks note
  rw [List.filter_append, hall, List.map_append, List.map_map]
  exact congrArg _ (List.map_id' _)

theorem ownMarks_note_of_ne [DecidableEq ι] (hne : j ≠ i) :
    ownMarks j (note i more marks) = ownMarks j marks := by
  have hnone : (more.map (Prod.mk i)).filter (·.1 = j) = [] := by
    rw [List.filter_eq_nil_iff]
    intro m hm
    obtain ⟨_, -, rfl⟩ := List.mem_map.mp hm
    simpa using Ne.symm hne
  unfold ownMarks note
  rw [List.filter_append, hnone, List.append_nil]

theorem mem_ownMarks [DecidableEq ι] {mark : LoginMark} :
    mark ∈ ownMarks i marks ↔ (i, mark) ∈ marks := by
  unfold ownMarks
  rw [List.mem_map]
  constructor
  · rintro ⟨⟨j, _⟩, hmem, rfl⟩
    rw [List.mem_filter, decide_eq_true_iff] at hmem
    obtain ⟨hmem, rfl⟩ := hmem
    exact hmem
  · intro hmem
    exact ⟨_, List.mem_filter.mpr ⟨hmem, decide_eq_true rfl⟩, rfl⟩

theorem mem_comparers : i ∈ comparers reqs name marks ↔
    (reqs i).params.name = name ∧ ∃ phc, (i, .compared phc) ∈ marks := by
  unfold comparers
  rw [List.mem_filterMap]
  constructor
  · rintro ⟨⟨j, mark⟩, hmem, heq⟩
    cases mark with
    | compared phc =>
        dsimp only at heq
        split at heq
        · rename_i hname
          cases heq
          exact ⟨hname, phc, hmem⟩
        · cases heq
    | admitted t => cases heq
    | cleared t => cases heq
  · rintro ⟨hname, phc, hmem⟩
    exact ⟨_, hmem, if_pos hname⟩

/-- The comparisons leave the windows as they are. -/
theorem filterMap_comparisons (req : LoginRequest) (snap : IdentitySnapshot) :
    (comparisons req snap).filterMap windowMark = [] := by
  unfold comparisons
  cases snap.lookupAccount req.params.name <;> rfl

theorem mem_comparisons {req : LoginRequest} {snap : IdentitySnapshot} {mark : LoginMark}
    (h : mark ∈ comparisons req snap) : ∃ phc, mark = .compared phc := by
  unfold comparisons at h
  rw [Option.mem_toList, Option.map_eq_some_iff] at h
  obtain ⟨acc, -, rfl⟩ := h
  exact ⟨_, rfl⟩

/-- The marks of a name after a step in which a request is admitted, or clears its bucket. -/
theorem marksOf_note_self {mark : LoginMark} {m : Meter.Mark} (hmark : windowMark mark = some m)
    (marks : List (ι × LoginMark)) :
    marksOf reqs (reqs i).params.name (note i [mark] marks) =
      marksOf reqs (reqs i).params.name marks ++ [m] := by
  rw [marksOf_note, if_pos rfl, List.filterMap_cons_some hmark, List.filterMap_nil]

theorem marksOf_note_of_ne {name : String} {more : List LoginMark}
    (hne : name ≠ (reqs i).params.name) (marks : List (ι × LoginMark)) :
    marksOf reqs name (note i more marks) = marksOf reqs name marks := by
  rw [marksOf_note, if_neg (Ne.symm hne), List.append_nil]

theorem marksOf_note_comparisons (name : String) (req : LoginRequest) (snap : IdentitySnapshot)
    (marks : List (ι × LoginMark)) :
    marksOf reqs name (note i (comparisons req snap) marks) = marksOf reqs name marks := by
  rw [marksOf_note, filterMap_comparisons, ite_self, List.append_nil]

theorem comparers_note {name : String} {mark : LoginMark} (h : ∀ phc, mark ≠ .compared phc)
    (marks : List (ι × LoginMark)) :
    comparers reqs name (note i [mark] marks) = comparers reqs name marks := by
  have hnone : comparers reqs name [(i, mark)] = [] := by
    cases mark with
    | compared phc => exact absurd rfl (h phc)
    | admitted | cleared => rfl
  have happend : comparers reqs name (note i [mark] marks) =
      comparers reqs name marks ++ comparers reqs name [(i, mark)] := List.filterMap_append
  rw [happend, hnone, List.append_nil]

end Marks

/-! ## Runs -/

section Runs

variable [DecidableEq ι] {X : TokenCrypto} {verifyPassword : String → String → Except String Bool}
  {rl : RateLimiter} {lag : Nat} {reqs : ι → LoginRequest} {s s' : Logins ι} {i : ι}

/-- The invariant. -/
structure Inv (verifyPassword : String → String → Except String Bool) (rl : RateLimiter)
    (lag : Nat) (reqs : ι → LoginRequest) (s : Logins ι) : Prop where
  metered : ∀ name, Metered rl lag s.now name s.buckets (marksOf reqs name s.marks)
  timed : ∀ i read, s.stage i = .timed read → read ≤ s.now
  told : ∀ i, Told verifyPassword (reqs i).params (ownMarks i s.marks) (s.stage i)
  once : ∀ name, (comparers reqs name s.marks).Nodup
  times : ∀ i t, (i, .admitted t) ∈ s.marks → t ≤ s.now

theorem Inv.new (store : FileStore) : Inv verifyPassword rl lag reqs (new store : Logins ι) where
  metered := fun _ ↦ ⟨none, .start, .none⟩
  timed := fun _ _ h ↦ by cases h
  told := fun _ ↦ .new
  once := fun _ ↦ List.nodup_nil
  times := fun _ _ h ↦ by cases h

theorem Inv.told_of_stage (h : Inv verifyPassword rl lag reqs s) {stage : LoginStage}
    (hi : s.stage i = stage) :
    Told verifyPassword (reqs i).params (ownMarks i s.marks) stage := hi ▸ h.told i

/-- What a request tells after a step of its own; the others tell what they told. -/
theorem Inv.told_note (h : Inv verifyPassword rl lag reqs s) {more : List LoginMark}
    {stage : LoginStage}
    (hi : Told verifyPassword (reqs i).params (ownMarks i s.marks ++ more) stage) (j : ι) :
    Told verifyPassword (reqs j).params (ownMarks j (note i more s.marks))
      (Function.update s.stage i stage j) := by
  rcases eq_or_ne j i with rfl | hne
  · rw [ownMarks_note_self, Function.update_self]
    exact hi
  · rw [ownMarks_note_of_ne hne, Function.update_of_ne hne]
    exact h.told j

/-- Nothing is noted in the step. -/
theorem Inv.told_update (h : Inv verifyPassword rl lag reqs s) {stage : LoginStage}
    (hi : Told verifyPassword (reqs i).params (ownMarks i s.marks) stage) (j : ι) :
    Told verifyPassword (reqs j).params (ownMarks j s.marks)
      (Function.update s.stage i stage j) := by
  rcases eq_or_ne j i with rfl | hne
  · rw [Function.update_self]
    exact hi
  · rw [Function.update_of_ne hne]
    exact h.told j

/-- A request that does not wait for the buckets after its step. -/
theorem Inv.timed_update (h : Inv verifyPassword rl lag reqs s) {stage : LoginStage}
    (hstage : ∀ read, stage = .timed read → read ≤ s.now) (j : ι) (read : Nat)
    (hj : Function.update s.stage i stage j = .timed read) : read ≤ s.now := by
  rcases eq_or_ne j i with rfl | hne
  · rw [Function.update_self] at hj
    exact hstage read hj
  · rw [Function.update_of_ne hne] at hj
    exact h.timed j read hj

theorem Told.new_eq {p : LoginParams} {marks : List LoginMark}
    (h : Told verifyPassword p marks .new) : marks = [] := by
  cases h
  rfl

theorem Told.timed_eq {p : LoginParams} {marks : List LoginMark} {read : Nat}
    (h : Told verifyPassword p marks (.timed read)) : marks = [] := by
  cases h
  rfl

theorem Told.admitted_eq {p : LoginParams} {marks : List LoginMark}
    (h : Told verifyPassword p marks .admitted) : ∃ t, marks = [.admitted t] := by
  cases h with
  | admitted t => exact ⟨t, rfl⟩

theorem Told.looked_eq {p : LoginParams} {marks : List LoginMark} {snap : IdentitySnapshot}
    (h : Told verifyPassword p marks (.looked snap)) : ∃ t, marks = [.admitted t] := by
  cases h with
  | looked t => exact ⟨t, rfl⟩

theorem Told.succeeded_eq {p : LoginParams} {marks : List LoginMark} {events : List AuditEvent}
    {resp : LoginResponse} (h : Told verifyPassword p marks (.succeeded events resp)) :
    ∃ t phc, marks = [.admitted t, .compared phc] ∧
      verifyPassword p.password phc = .ok true := by
  cases h with
  | succeeded t phc hright => exact ⟨t, phc, rfl, hright⟩

/-- Who has compared a password was admitted. -/
theorem Told.admitted_of_compared {p : LoginParams} {marks : List LoginMark} {stage : LoginStage}
    {phc : String} (h : Told verifyPassword p marks stage) (hmem : LoginMark.compared phc ∈ marks) :
    ∃ t, LoginMark.admitted t ∈ marks := by
  cases h <;> first | exact ⟨_, List.mem_cons_self⟩ | cases hmem

/-- A login that succeeds has found the account, and its password was right. -/
theorem verified_of_login {checked : Except Nat Unit} {req : LoginRequest}
    {snap : IdentitySnapshot} {st st' : FileStore} {events : List AuditEvent}
    {resp : LoginResponse}
    (h : req.login X verifyPassword checked snap st = (st', events, .ok resp)) :
    ∃ acc, snap.lookupAccount req.params.name = some acc ∧
      verifyPassword req.params.password acc.passwordPhc = .ok true := by
  unfold LoginRequest.login login at h
  dsimp only at h
  split at h
  · cases h
  · split at h
    · cases h
    · rename_i acc hacc
      refine ⟨acc, hacc, ?_⟩
      split at h
      · cases h
      · cases h
      · assumption

/-- A request compares once. -/
theorem Inv.once_note (h : Inv verifyPassword rl lag reqs s) {snap : IdentitySnapshot}
    (hi : s.stage i = .looked snap) (name : String) :
    (comparers reqs name (note i (comparisons (reqs i) snap) s.marks)).Nodup := by
  have hnew : i ∉ comparers reqs name s.marks := by
    rw [mem_comparers]
    rintro ⟨-, phc, hmem⟩
    obtain ⟨t, hmarks⟩ := (h.told_of_stage hi).looked_eq
    have hown := mem_ownMarks.mpr hmem
    rw [hmarks, List.mem_singleton] at hown
    cases hown
  have hmore : comparers reqs name ((comparisons (reqs i) snap).map (Prod.mk i)) = [] ∨
      comparers reqs name ((comparisons (reqs i) snap).map (Prod.mk i)) = [i] := by
    unfold comparisons
    cases snap.lookupAccount (reqs i).params.name with
    | none => exact .inl rfl
    | some acc =>
        by_cases hname : (reqs i).params.name = name
        · exact .inr (by simp [comparers, hname])
        · exact .inl (by simp [comparers, hname])
  have happend : comparers reqs name (note i (comparisons (reqs i) snap) s.marks) =
      comparers reqs name s.marks ++
        comparers reqs name ((comparisons (reqs i) snap).map (Prod.mk i)) :=
    List.filterMap_append
  rw [happend]
  rcases hmore with hmore | hmore
  · rw [hmore, List.append_nil]
    exact h.once name
  · rw [hmore]
    exact (h.once name).append (List.nodup_singleton i) (by simpa using hnew)

/-- Who is admitted is admitted now. -/
theorem Inv.times_note (h : Inv verifyPassword rl lag reqs s) {more : List LoginMark}
    (hmore : ∀ t, .admitted t ∈ more → t ≤ s.now) (j : ι) (t : Nat)
    (hmem : (j, .admitted t) ∈ note i more s.marks) : t ≤ s.now := by
  rcases List.mem_append.mp hmem with hmem | hmem
  · exact h.times j t hmem
  · obtain ⟨mark, hmark, heq⟩ := List.mem_map.mp hmem
    obtain ⟨rfl, rfl⟩ := Prod.mk.inj heq
    exact hmore t hmark

theorem Step.inv (hlag : lag < rl.window) (hstep : Step X verifyPassword rl lag reqs s s')
    (h : Inv verifyPassword rl lag reqs s) : Inv verifyPassword rl lag reqs s' := by
  cases hstep with
  | tick n =>
      have hle : s.now ≤ s.now + n := Nat.le_add_right _ _
      exact ⟨fun name ↦ (h.metered name).later hle, fun i read hi ↦ (h.timed i read hi).trans hle,
        h.told, h.once, fun i t hmem ↦ (h.times i t hmem).trans hle⟩
  | store st => exact ⟨h.metered, h.timed, h.told, h.once, h.times⟩
  | @read i hi =>
      refine ⟨h.metered, h.timed_update fun read hread ↦ ?_, h.told_update ?_, h.once, h.times⟩
      · cases hread
        exact Nat.le_refl _
      · rw [(h.told_of_stage hi).new_eq]
        exact .timed _
  | @pass i read buckets hi hwaited hcheck =>
      have hread := h.timed i read hi
      refine ⟨fun name ↦ ?_, h.timed_update (by rintro _ ⟨⟩), h.told_note ?_, fun name ↦ ?_,
        h.times_note ?_⟩
      · dsimp only
        rcases eq_or_ne name (reqs i).params.name with rfl | hne
        · rw [marksOf_note_self rfl]
          exact (h.metered _).check_ok hlag hread hwaited hcheck
        · rw [marksOf_note_of_ne hne]
          exact (h.metered name).check_other hlag hread hne hcheck
      · rw [(h.told_of_stage hi).timed_eq]
        exact .admitted _
      · rw [comparers_note (by rintro _ ⟨⟩)]
        exact h.once name
      · intro t ht
        cases List.mem_singleton.mp ht
        exact Nat.le_refl _
  | @refuse i read buckets limited st events d hi hwaited hcheck hlogin =>
      have hread := h.timed i read hi
      refine ⟨fun name ↦ ?_, h.timed_update (by rintro _ ⟨⟩), h.told_update ?_, h.once, h.times⟩
      · dsimp only
        rcases eq_or_ne name (reqs i).params.name with rfl | hne
        · exact (h.metered _).check_error hlag hread hwaited hcheck
        · exact (h.metered name).check_other hlag hread hne hcheck
      · rw [(h.told_of_stage hi).timed_eq]
        exact .refused d
  | @look i hi =>
      obtain ⟨t, hmarks⟩ := (h.told_of_stage hi).admitted_eq
      refine ⟨h.metered, h.timed_update (by rintro _ ⟨⟩), h.told_update ?_, h.once, h.times⟩
      rw [hmarks]
      exact .looked t _
  | @fail i snap st events d hi hlogin =>
      obtain ⟨t, hmarks⟩ := (h.told_of_stage hi).looked_eq
      refine ⟨fun name ↦ ?_, h.timed_update (by rintro _ ⟨⟩), h.told_note ?_, h.once_note hi,
        h.times_note ?_⟩
      · dsimp only
        rw [marksOf_note_comparisons]
        exact h.metered name
      · rw [hmarks, comparisons]
        cases snap.lookupAccount (reqs i).params.name with
        | none => exact .unknown t d
        | some acc => exact .failed t acc.passwordPhc d
      · intro t ht
        obtain ⟨phc, heq⟩ := mem_comparisons ht
        cases heq
  | @succeed i snap st events resp hi hlogin =>
      obtain ⟨t, hmarks⟩ := (h.told_of_stage hi).looked_eq
      refine ⟨fun name ↦ ?_, h.timed_update (by rintro _ ⟨⟩), h.told_note ?_, h.once_note hi,
        h.times_note ?_⟩
      · dsimp only
        rw [marksOf_note_comparisons]
        exact h.metered name
      · obtain ⟨acc, hacc, hright⟩ := verified_of_login hlogin
        rw [hmarks, comparisons, hacc]
        exact .succeeded t acc.passwordPhc hright events resp
      · intro t ht
        obtain ⟨phc, heq⟩ := mem_comparisons ht
        cases heq
  | @clear i events resp hi =>
      refine ⟨fun name ↦ ?_, h.timed_update (by rintro _ ⟨⟩), h.told_note ?_, fun name ↦ ?_,
        h.times_note ?_⟩
      · dsimp only
        rcases eq_or_ne name (reqs i).params.name with rfl | hne
        · rw [marksOf_note_self rfl]
          exact (h.metered _).reset
        · rw [marksOf_note_of_ne hne]
          exact (h.metered name).reset_other hne
      · obtain ⟨t, phc, hmarks, hright⟩ := (h.told_of_stage hi).succeeded_eq
        rw [hmarks]
        exact .cleared t phc hright _ resp
      · rw [comparers_note (by rintro _ ⟨⟩)]
        exact h.once name
      · intro t ht
        cases List.mem_singleton.mp ht

theorem Run.inv (hlag : lag < rl.window) {store : FileStore}
    (hrun : Run X verifyPassword rl lag reqs (new store) s) :
    Inv verifyPassword rl lag reqs s := by
  induction hrun with
  | refl => exact .new store
  | tail _ hstep ih => exact hstep.inv hlag ih

/-- No more requests have compared a password than were admitted. -/
theorem Inv.comparers_le (h : Inv verifyPassword rl lag reqs s) (name : String) :
    (comparers reqs name s.marks).length ≤
      Meter.admittedIn 0 s.now (marksOf reqs name s.marks) := by
  let counts (m : ι × LoginMark) : Bool :=
    ((if (reqs m.1).params.name = name then windowMark m.2 else none).map
      (·.admittedIn 0 s.now)).getD false
  have hcount : Meter.admittedIn 0 s.now (marksOf reqs name s.marks) =
      ((s.marks.filter counts).map Prod.fst).length := by
    rw [List.length_map, ← List.countP_eq_length_filter]
    exact List.countP_filterMap
  rw [hcount]
  refine ((h.once name).subperm fun i hi ↦ ?_).length_le
  obtain ⟨hname, phc, hmem⟩ := mem_comparers.mp hi
  obtain ⟨t, ht⟩ := (h.told i).admitted_of_compared (mem_ownMarks.mpr hmem)
  have hadmitted := mem_ownMarks.mp ht
  refine List.mem_map.mpr ⟨_, List.mem_filter.mpr ⟨hadmitted, ?_⟩, rfl⟩
  have hnow := h.times i t hadmitted
  simp [counts, hname, windowMark, Meter.Mark.admittedIn, hnow]

/-- **How many passwords can be tried.**  In every interleaving of logins under any names, with
buckets pruned and the store changed in between, and requests that wait up to `lag` for the buckets:

* between any two times, no more requests for a name are admitted than `max_attempts` for each
  window that fits in between, for two more, and for each success;
* until now, passwords were compared for the name no more often than that; and
* a request compares at most one password, after it was admitted, and only one whose password was
  right clears the bucket and is given a capability. -/
theorem guesses_le (hlag : lag < rl.window) {store : FileStore}
    (hrun : Run X verifyPassword rl lag reqs (new store) s) (name : String) (a b : Nat) :
    Meter.admittedIn a b (marksOf reqs name s.marks) ≤ rl.maxAttempts *
        ((b - a) / (rl.window - lag) + 2 + Meter.clearedIn a b (marksOf reqs name s.marks)) ∧
      (comparers reqs name s.marks).length ≤ rl.maxAttempts *
        (s.now / (rl.window - lag) + 2 +
          Meter.clearedIn 0 s.now (marksOf reqs name s.marks)) ∧
      ∀ i, Told verifyPassword (reqs i).params (ownMarks i s.marks) (s.stage i) := by
  have hinv := Run.inv hlag hrun
  obtain ⟨o, hmeter, -⟩ := hinv.metered name
  have hwindow : 0 < (meter rl lag).window := Nat.sub_pos_of_lt hlag
  exact ⟨hmeter.admittedIn_le hwindow a b,
    (hinv.comparers_le name).trans (hmeter.admittedIn_le hwindow 0 s.now), hinv.told⟩

/-- Two guesses at the password of the administrator. -/
def twoGuesses (_ : Bool) : LoginRequest where
  params := ⟨"admin", "hunter2", none, none⟩
  readings := bareEnv.readings
  bytes := bareEnv.bytes
  fault := none

/-- The store with that account. -/
def guessedStore : FileStore :=
  (accountWorld ((∅ : HashMap String AccountRecord).insert "admin" guessedAccount)).store

/-- Both come in one window, which admits one: the other one is refused. -/
theorem guesses_le_two : ∃ s : Logins Bool, comparers twoGuesses "admin" s.marks = [false] ∧
    (comparers twoGuesses "admin" s.marks).length ≤ 1 * (s.now / (60 - 1) + 2 +
      Meter.clearedIn 0 s.now (marksOf twoGuesses "admin" s.marks)) := by
  have hread : Run Token.sampleCrypto plainHashing.verify (.withCap 1 60 2) 1 twoGuesses
      (new guessedStore) _ :=
    (Relation.ReflTransGen.single (.read (i := false) rfl)).tail (.read (i := true) rfl)
  have hchecked := (hread.tail (.pass (i := false) rfl (Nat.zero_le _) rfl)).tail
    (.refuse (i := true) rfl (Nat.zero_le _) rfl rfl)
  have hcompared := (hchecked.tail (.look (i := false) rfl)).tail (.fail (i := false) rfl rfl)
  exact ⟨_, rfl, (guesses_le (by decide) hcompared "admin" 0 0).2.1⟩

end Runs

end Logins

end Vaiexia.Api
