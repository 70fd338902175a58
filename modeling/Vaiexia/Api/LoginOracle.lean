import Vaiexia.Api.Serve

/-!
# What failed logins tell

Requests of `auth.login` that present no right password get the same answers whether the account
exists or not: the limiter counts an attempt before the account is looked up, and both refusals have
one text.

A login that fails leaves the store alone, so that what is left of a request are the buckets of the
limiter, which `loginRefused_eq` computes from the request and the buckets.  `no_account_oracle` is
about two worlds and any sequence of requests.
-/

namespace Vaiexia.Api

open Vaiexia.Lib Vaiexia.Audit Vaiexia.Auth

/-- `hash_password`, with its salt, and `verify_password`, which fails on malformed hashes only. -/
structure PasswordHashing where
  hash : Bytes → String → Except String String
  verify : String → String → Except String Bool
  verify_hash : ∀ salt password phc, hash salt password = .ok phc →
    ∀ presented, ∃ right, verify presented phc = .ok right

/-- Every stored hash is one that `hash_password` made. -/
def PasswordHashing.Hashed (H : PasswordHashing) (snap : IdentitySnapshot) : Prop :=
  ∀ name acc, snap.lookupAccount name = some acc →
    ∃ salt password, H.hash salt password = .ok acc.passwordPhc

/-- A request of `auth.login`. -/
structure LoginCall where
  cap : Option String
  params : LoginParams
  env : Env

/-- The answers to a sequence of them. -/
def serveLogins (X : TokenCrypto) (core : ScopeSets) :
    List LoginCall → World → List (Option (Except Diagnostic Response))
  | [], _ => []
  | c :: cs, w =>
      let (w, _, answer) := serve X core c.env c.cap (.login c.params) w
      answer :: serveLogins X core cs w

/-- The request presents no right password of the store. -/
def LoginCall.Wrong (H : PasswordHashing) (snap : IdentitySnapshot) (c : LoginCall) : Prop :=
  c.env.verifyPassword = H.verify ∧
    ∀ acc, snap.lookupAccount c.params.name = some acc →
      H.verify c.params.password acc.passwordPhc ≠ .ok true

/-! ## A login that fails -/

/-- What the limiter makes of a request. -/
def LoginCall.checked (c : LoginCall) (buckets : HashMap String Bucket) :
    HashMap String Bucket × Except RateLimited Unit :=
  c.env.limiter.check c.env.limiterNow c.params.name buckets

/-- The refusal, by the limiter's answer only. -/
def refusal : Except RateLimited Unit → Diagnostic
  | .error limited =>
      ⟨.named "RATE_LIMIT", s!"too many attempts; retry after {limited.retryAfterSecs}s"⟩
  | .ok () => ⟨.unauthenticated, "invalid credentials"⟩

section Refused

variable {X : TokenCrypto} {core : ScopeSets} {H : PasswordHashing} {c : LoginCall} {w : World}

/-- **A login without the right password** leaves the store alone, and is refused in the same words
whether there is such an account or not. -/
theorem login_refused (hhashed : H.Hashed w.store.snap) (hwrong : c.Wrong H w.store.snap)
    (checked : Except RateLimited Unit) :
    ∃ events, login X c.env.verifyPassword (checked.mapError RateLimited.retryAfterSecs)
        c.env.readings c.env.bytes c.env.fault c.params w.store.snap w.store =
      (w.store, events, .error (refusal checked)) := by
  cases checked with
  | error limited => exact ⟨_, rfl⟩
  | ok =>
      show ∃ events, login X c.env.verifyPassword (.ok ()) _ _ _ _ _ _ = _
      unfold login
      dsimp only
      cases hacc : w.store.snap.lookupAccount c.params.name with
      | none => exact ⟨_, rfl⟩
      | some acc =>
          obtain ⟨salt, password, hhash⟩ := hhashed c.params.name acc hacc
          obtain ⟨right, hverify⟩ := H.verify_hash salt password _ hhash c.params.password
          have hfalse : right = false := by
            have hne := hwrong.2 acc hacc
            rw [hverify] at hne
            cases right with
            | false => rfl
            | true => exact absurd rfl hne
          subst hfalse
          dsimp only
          rw [hwrong.1, hverify]
          exact ⟨_, rfl⟩

/-- The registration of the method, which is open to everybody. -/
theorem find?_login : (service.find? fun reg ↦ reg.method == "auth.login") =
    some ⟨"auth.login", none, .denyOnly⟩ := by decide

/-- **Such a request leaves its attempt in the buckets**, and nothing else. -/
theorem serve_refused (hhashed : H.Hashed w.store.snap) (hwrong : c.Wrong H w.store.snap) :
    ∃ events, serve X core c.env c.cap (.login c.params) w =
      ({ w with buckets := (c.checked w.buckets).1 }, events,
        some (.error (refusal (c.checked w.buckets).2))) := by
  obtain ⟨events, hlogin⟩ := @login_refused X H c w hhashed hwrong (c.checked w.buckets).2
  have hlimited : loginLimited X c.env c.params w =
      ({ w with buckets := (c.checked w.buckets).1 }, events,
        .error (refusal (c.checked w.buckets).2)) := by
    unfold loginLimited
    dsimp only
    rw [show c.env.limiter.check c.env.limiterNow c.params.name w.buckets = c.checked w.buckets
      from rfl, hlogin]
    rfl
  have hhandle : ∀ resolved reported, handle X c.env (anonymousSubject core) resolved reported w
      (.login c.params) = ({ w with buckets := (c.checked w.buckets).1 }, events,
        .error (refusal (c.checked w.buckets).2)) := by
    intro resolved reported
    unfold handle
    dsimp only
    rw [hlimited]
    rfl
  have hdispatch : dispatch X core c.env.clock c.env.guardNow c.cap ⟨"auth.login", none, .denyOnly⟩
      w.store = (w.store, [], .ok (anonymousSubject core)) := rfl
  refine ⟨[] ++ events, ?_⟩
  unfold serve
  rw [show (Request.login c.params).method = "auth.login" from rfl, find?_login]
  dsimp only
  rw [hdispatch]
  dsimp only
  rw [show w.setStore w.store = w from rfl, hhandle]

end Refused

/-! ## Two worlds -/

/-- **Login is no account oracle.**  For every two worlds with the same buckets, whatever accounts
and capabilities their stores have, and every sequence of `auth.login` requests at any readings of
the clocks, with any tokens, none of which presents a right password in either store: the answers
are the same, the ones of the limiter and the time to wait that they name included. -/
theorem no_account_oracle (X : TokenCrypto) (core : ScopeSets) (H : PasswordHashing) {w w' : World}
    (hbuckets : w.buckets = w'.buckets) (hhashed : H.Hashed w.store.snap)
    (hhashed' : H.Hashed w'.store.snap) (calls : List LoginCall)
    (hwrong : ∀ c ∈ calls, c.Wrong H w.store.snap)
    (hwrong' : ∀ c ∈ calls, c.Wrong H w'.store.snap) :
    serveLogins X core calls w = serveLogins X core calls w' := by
  induction calls generalizing w w' with
  | nil => rfl
  | cons c cs ih =>
      obtain ⟨events, hserve⟩ := @serve_refused X core H c w hhashed
        (hwrong c List.mem_cons_self)
      obtain ⟨events', hserve'⟩ := @serve_refused X core H c w' hhashed'
        (hwrong' c List.mem_cons_self)
      rw [serveLogins, serveLogins, hserve, hserve', hbuckets]
      dsimp only
      congr 1
      apply ih
      · rfl
      · exact hhashed
      · exact hhashed'
      · exact fun d hd ↦ hwrong d (List.mem_cons_of_mem c hd)
      · exact fun d hd ↦ hwrong' d (List.mem_cons_of_mem c hd)

/-- A hashing whose hashes are right for one password each. -/
def plainHashing : PasswordHashing where
  hash _ password := .ok ("$argon2id$" ++ password)
  verify presented phc := .ok (phc == "$argon2id$" ++ presented)
  verify_hash _ _ _ _ _ := ⟨_, rfl⟩

/-- A world with no capabilities and these accounts. -/
def accountWorld (accounts : HashMap String AccountRecord) : World where
  session := { state := .disabled, store := ⟨none, ⟨∅, accounts⟩, ∅⟩, codeFile := none }
  buckets := ∅
  jobs := .new

/-- The account of an administrator. -/
def guessedAccount : AccountRecord := ⟨"admin", "$argon2id$correct horse", "user:admin", []⟩

/-- A guess at its password. -/
def adminGuess : LoginCall where
  cap := none
  params := ⟨"admin", "hunter2", none, none⟩
  env := { bareEnv with verifyPassword := plainHashing.verify }

/-- Six guesses, the last of which the limiter refuses, whether there is an account or not. -/
theorem no_account_oracle_admin :
    serveLogins Token.sampleCrypto .lists (List.replicate 6 adminGuess)
        (accountWorld ((∅ : HashMap String AccountRecord).insert "admin" guessedAccount)) =
      serveLogins Token.sampleCrypto .lists (List.replicate 6 adminGuess) (accountWorld ∅) := by
  have hadmin : ∀ name acc,
      (accountWorld ((∅ : HashMap String AccountRecord).insert "admin"
        guessedAccount)).store.snap.lookupAccount name = some acc → acc = guessedAccount := by
    intro name acc h
    have hlookup := (HashMap.lookup_insert_eq "admin" name guessedAccount
      (∅ : HashMap String AccountRecord)).symm.trans h
    split at hlookup
    · exact (Option.some.inj hlookup).symm
    · cases hlookup
  have hnone : ∀ name acc, (accountWorld ∅).store.snap.lookupAccount name ≠ some acc := by
    intro name acc h
    cases h
  refine no_account_oracle _ _ plainHashing ?_ ?_ ?_ _ ?_ ?_
  · rfl
  · intro name acc h
    rw [hadmin name acc h]
    exact ⟨[], "correct horse", rfl⟩
  · intro name acc h
    exact absurd h (hnone name acc)
  · intro c hc
    rw [List.eq_of_mem_replicate hc]
    refine ⟨rfl, fun acc h ↦ ?_⟩
    rw [hadmin _ acc h]
    decide
  · intro c hc
    exact ⟨by rw [List.eq_of_mem_replicate hc]; rfl, fun acc h ↦ absurd h (hnone _ acc)⟩

end Vaiexia.Api
