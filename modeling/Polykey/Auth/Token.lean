/-
# Tokens and the revocation list

`infra/auth.TokenManager` over the in-memory token store.  The store is a cache of token ids; an
entry is written by `Revoke` with the token's remaining validity as its ttl, and is read by
`ValidateToken` after the JWT library has accepted the token.

Each operation reads the clock twice, `now` and then `later`: `Revoke` to compute the ttl and
inside `Cache.Set`, `ValidateToken` inside the library and inside `Cache.Get`.  Since the first
reading is not after the second, the entry of a revocation stands until the token expires, unless

* a later `Revoke` overwrites it with a shorter one, and `Revoke` believes every claim of a token
  it has not verified;
* `time.Until` is capped, at about 292 years;
* the library accepts the token just before it expires and the store is asked just after.  (Where
  the library is asked after the expiry too, it rejects the token itself.)

Those are the runs in which a revoked token is accepted again (`revoked_token_accepted`); there are
no others (`token_stays_revoked`).
-/
import Polykey.Cache.Generic
import Polykey.Service.World

namespace Polykey

/-! ## 1. The JWT library -/

/-- `auth.Claims`. -/
structure Claims where
  userID : String
  roles : List String
  id : String
  expiresAt : Option Time
  issuedAt : Option Time
  deriving DecidableEq, Repr

/-- What the code uses of the JWT library, with the manager's key pair.  `ParseUnverified` returns
the claims of any well-formed token.  `ParseWithClaims` returns the same claims, and only for a
token that is correctly signed and has not expired; a token without an expiry does not expire. -/
structure JWT where
  newNumericDate : Time → Time
  signedString : Claims → Except Err String
  signed : String → Prop
  parseUnverified : String → Except Err Claims
  parseWithClaims : Time → String → Except Err Claims
  parse_valid : ∀ {now tokenString claims}, parseWithClaims now tokenString = .ok claims →
    signed tokenString ∧ parseUnverified tokenString = .ok claims ∧
      ∀ exp, claims.expiresAt = some exp → now < exp

/-! ## 2. The token manager -/

/-- The largest and the smallest `time.Duration`. -/
def maxDuration : Duration := 2 ^ 63 - 1
def minDuration : Duration := -2 ^ 63

/-- `time.Until`, read at `now`; it saturates. -/
def timeUntil (now exp : Time) : Duration := max minDuration (min (exp - now) maxDuration)

/-- The manager's store and audit log, and the clock. -/
structure TokenManager where
  store : Cache String Unit
  audit : List AuditEvent
  clock : Time

namespace TokenManager

/-- `NewTokenManager` over `NewInMemoryTokenStore`. -/
def new (now : Time) : TokenManager := ⟨.new String Unit (5 * minute), [], now⟩

/-- `TokenManager.GenerateToken`, with the new uuid. -/
def generateToken (jwt : JWT) (now later : Time) (id userID : String) (roles : List String)
    (expiration : Duration) : Except Err String :=
  jwt.signedString {
    userID := userID
    roles := roles
    id := id
    expiresAt := some (jwt.newNumericDate (now + expiration))
    issuedAt := some (jwt.newNumericDate later) }

/-- `inMemoryTokenStore.IsRevoked`. -/
def isRevoked (tm : TokenManager) (now : Time) (tokenID : String) : Bool :=
  (tm.store.get now tokenID).isSome

/-- `TokenManager.ValidateToken`. -/
def validateToken (jwt : JWT) (now later : Time) (tm : TokenManager) (tokenString : String) :
    Except Err Claims :=
  match jwt.parseWithClaims now tokenString with
  | .error e => .error e
  | .ok claims =>
    if tm.isRevoked later claims.id then .error (.new "token has been revoked") else .ok claims

/-- `TokenManager.Revoke`. -/
def revoke (jwt : JWT) (now later : Time) (tm : TokenManager) (tokenString : String) :
    Except Err Unit × TokenManager :=
  match jwt.parseUnverified tokenString with
  | .error e =>
    (.error (e.wrap "failed to parse token for revocation: "), { tm with clock := later })
  | .ok claims =>
    match claims.expiresAt with
    | none => (.error (.new "cannot revoke token with no expiration"), { tm with clock := later })
    | some exp =>
      let ttl := timeUntil now exp
      -- the token has expired already: nothing to store
      if ttl ≤ 0 then (.ok (), { tm with clock := later })
      else (.ok (), {
        store := tm.store.set later claims.id () ttl
        audit := tm.audit ++ [⟨claims.userID, "RevokeToken", claims.id, true, none⟩]
        clock := later })

end TokenManager

/-- An operation on the manager, or a pass of the store's cleanup loop. -/
inductive TokenOp
  | generateToken (id userID : String) (roles : List String) (expiration : Duration)
  | validateToken (tokenString : String)
  | revoke (tokenString : String)
  | cleanup

/-- The manager after an operation. -/
def TokenOp.exec (jwt : JWT) (now later : Time) (tm : TokenManager) : TokenOp → TokenManager
  | generateToken _ _ _ _ | validateToken _ => { tm with clock := later }
  | revoke tokenString => (tm.revoke jwt now later tokenString).2
  | cleanup => { tm with store := (tm.store.deleteExpired later).1, clock := later }

/-- The steps of a run: operations that meet a condition, on a clock that does not go back. -/
inductive TokenStep (jwt : JWT) (cond : Time → Time → TokenOp → Prop) :
    TokenManager → TokenManager → Prop
  | exec {tm : TokenManager} {now later : Time} (op : TokenOp) (hnow : tm.clock ≤ now)
    (hlater : now ≤ later) (hcond : cond now later op) :
    TokenStep jwt cond tm (op.exec jwt now later tm)

/-! ## 3. A revocation stands

The invariant is about one entry of the store: until the token expires, its id has an entry that
lasts until then. Every operation either leaves that entry alone or is a `Revoke` of the same id,
and there the condition on the run comes in. -/

/-- The operation does not shorten the revocation of an id below a time: what `Revoke` stores under
the id, if it stores anything, stays until then. -/
def KeepsTokenRevoked (jwt : JWT) (id : String) (exp : Time) (now later : Time) : TokenOp → Prop
  | .revoke tokenString => ∀ claims e, jwt.parseUnverified tokenString = .ok claims →
    claims.id = id → claims.expiresAt = some e →
      timeUntil now e ≤ 0 ∨ exp ≤ later + timeUntil now e
  | _ => True

/-- Until its time, the id has an entry that lasts until then. -/
def RevokedUntil (id : String) (exp : Time) (tm : TokenManager) : Prop :=
  tm.clock ≤ exp → ∃ i, tm.store.items.lookup id = some i ∧ exp ≤ i.expiresAt

variable {jwt : JWT} {tm tm' : TokenManager} {id : String} {exp now later : Time}

/-- The ttl of a token that has not expired, and that expires in less than 292 years, is what is
left of its validity. -/
theorem timeUntil_eq (hlt : now < exp) (hmax : exp - now ≤ maxDuration) :
    timeUntil now exp = exp - now := by
  have hmin : minDuration ≤ exp - now :=
    le_trans (by decide : minDuration ≤ 0) (Int.sub_nonneg_of_le hlt.le)
  rw [timeUntil, min_eq_left hmax, max_eq_right hmin]

theorem makeItem_positive (c : Cache String Unit) {ttl : Duration} (h : ¬ ttl ≤ 0) :
    c.makeItem later () ttl = ⟨(), later + ttl, false⟩ := by
  have hpos : 0 < ttl := lt_of_not_ge h
  rw [Cache.makeItem, if_neg (by rintro rfl; exact absurd hpos (by decide)), if_neg hpos.ne']

/-- A `Revoke` that stores long enough under the id leaves it revoked; one that stores under
another id, or nothing, leaves its entry alone. -/
theorem RevokedUntil.revoke {tokenString : String} (h : RevokedUntil id exp tm)
    (hclock : tm.clock ≤ later)
    (hkeeps : KeepsTokenRevoked jwt id exp now later (.revoke tokenString)) :
    RevokedUntil id exp (tm.revoke jwt now later tokenString).2 := by
  have hsame : ∀ tm' : TokenManager, tm'.store = tm.store → tm'.clock = later →
      RevokedUntil id exp tm' := by
    intro tm' hstore hlater hle
    rw [hstore]
    exact h (hclock.trans (hlater ▸ hle))
  unfold TokenManager.revoke
  split
  · exact hsame _ rfl rfl
  rename_i claims hparse
  split
  · exact hsame _ rfl rfl
  rename_i e hexp
  dsimp only
  split
  · exact hsame _ rfl rfl
  rename_i hpos
  intro hle
  by_cases hid : claims.id = id
  · subst hid
    refine ⟨_, Cache.lookup_set_self _ _ _ _ _, ?_⟩
    rw [makeItem_positive _ hpos]
    exact (hkeeps claims e hparse rfl hexp).resolve_left hpos
  · obtain ⟨i, hi, hlasts⟩ := h (hclock.trans hle)
    exact ⟨i, (Cache.lookup_set_ne _ _ _ _ (Ne.symm hid)).trans hi, hlasts⟩

/-- What one step keeps. -/
theorem RevokedUntil.step (h : RevokedUntil id exp tm)
    (hstep : TokenStep jwt (KeepsTokenRevoked jwt id exp) tm tm') : RevokedUntil id exp tm' := by
  obtain ⟨op, hnow, hlater, hcond⟩ := hstep
  have hclock := hnow.trans hlater
  cases op with
  | generateToken _ _ _ _ | validateToken _ => exact fun hle => h (hclock.trans hle)
  | revoke tokenString => exact h.revoke hclock hcond
  | cleanup =>
    intro hle
    obtain ⟨i, hi, hlasts⟩ := h (hclock.trans hle)
    refine ⟨i, (Cache.lookup_deleteExpired _ _ _ _).mpr ⟨hi, ?_⟩, hlasts⟩
    exact Cache.Item.live_of_le (hle.trans hlasts)

/-- What every run keeps. -/
theorem RevokedUntil.run (h : RevokedUntil id exp tm)
    (hrun : Relation.ReflTransGen (TokenStep jwt (KeepsTokenRevoked jwt id exp)) tm tm') :
    RevokedUntil id exp tm' := by
  induction hrun with
  | refl => exact h
  | tail _ hstep ih => exact ih.step hstep

/-- `Revoke` of a token that has not expired stores its id until it does. -/
theorem revokedUntil_revoke {tokenString : String} {claims : Claims}
    (hparse : jwt.parseUnverified tokenString = .ok claims) (hexp : claims.expiresAt = some exp)
    (hlt : now < exp) (hmax : exp - now ≤ maxDuration) (hlater : now ≤ later) :
    RevokedUntil claims.id exp (tm.revoke jwt now later tokenString).2 := by
  have hpos : ¬ timeUntil now exp ≤ 0 := by
    rw [timeUntil_eq hlt hmax]
    exact not_le_of_gt (Int.sub_pos_of_lt hlt)
  intro _
  simp only [TokenManager.revoke, hparse, hexp, if_neg hpos]
  refine ⟨_, Cache.lookup_set_self _ _ _ _ _, ?_⟩
  rw [makeItem_positive _ hpos, timeUntil_eq hlt hmax]
  have hsum : now + (exp - now) = exp := add_sub_cancel now exp
  exact hsum.symm.le.trans (Int.add_le_add_right hlater _)

/-- A token whose id has a lasting entry is rejected: by the store, if it is asked before the token
expires, and by the library, if that is asked after. -/
theorem RevokedUntil.validateToken {tokenString : String} {claims : Claims}
    (h : RevokedUntil claims.id exp tm) (hparse : jwt.parseUnverified tokenString = .ok claims)
    (hexp : claims.expiresAt = some exp) (hnow : tm.clock ≤ now) (hlater : now ≤ later)
    (hsides : later ≤ exp ∨ exp ≤ now) (result : Claims) :
    tm.validateToken jwt now later tokenString ≠ .ok result := by
  intro hok
  unfold TokenManager.validateToken at hok
  split at hok
  · cases hok
  rename_i claims' hvalid
  obtain ⟨-, hparse', hunexpired⟩ := jwt.parse_valid hvalid
  obtain rfl : claims = claims' := Except.ok.inj (hparse.symm.trans hparse')
  have hbefore : later ≤ exp := hsides.resolve_right (not_le_of_gt (hunexpired exp hexp))
  obtain ⟨i, hi, hlasts⟩ := h (hnow.trans (hlater.trans hbefore))
  have hget : tm.store.get later claims.id = some () :=
    Cache.get_eq_some.mpr ⟨i, hi, Cache.Item.live_of_le (hbefore.trans hlasts), rfl⟩
  rw [if_pos (by rw [TokenManager.isRevoked, hget]; rfl)] at hok
  cases hok

/-- **A revoked token stays revoked.**  From a `Revoke` before the token expires, through every
run in which no later `Revoke` shortens the entry, `ValidateToken` rejects the token at every later
time, unless the token expires between its two readings of the clock. -/
theorem token_stays_revoked {tokenString : String} {claims : Claims} {tm₀ tm : TokenManager}
    {now₀ later₀ : Time} (hparse : jwt.parseUnverified tokenString = .ok claims)
    (hexp : claims.expiresAt = some exp) (hlt : now₀ < exp) (hmax : exp - now₀ ≤ maxDuration)
    (hlater₀ : now₀ ≤ later₀)
    (hrun : Relation.ReflTransGen (TokenStep jwt (KeepsTokenRevoked jwt claims.id exp))
      (tm₀.revoke jwt now₀ later₀ tokenString).2 tm)
    (hnow : tm.clock ≤ now) (hlater : now ≤ later) (hsides : later ≤ exp ∨ exp ≤ now)
    (result : Claims) :
    (tm₀.revoke jwt now₀ later₀ tokenString).1 = .ok () ∧
      tm.validateToken jwt now later tokenString ≠ .ok result := by
  constructor
  · simp only [TokenManager.revoke, hparse, hexp]
    split <;> rfl
  · have hrevoked := (revokedUntil_revoke hparse hexp hlt hmax hlater₀).run hrun
    exact hrevoked.validateToken hparse hexp hnow hlater hsides result

/-! ### Tokens of three fields -/

/-- The fields of a token: its id, its expiry in seconds and its signature. -/
def tokenFields (tokenString : String) : List String :=
  (tokenString.toList.splitOn '.').map String.ofList

def readNumber (text : String) : Option Nat :=
  if text.toList.all Char.isDigit then
    some (text.toList.foldl (fun n c => 10 * n + (c.toNat - '0'.toNat)) 0)
  else none

/-- The claims of a well-formed token. -/
def sampleClaims (tokenString : String) : Except Err Claims :=
  match tokenFields tokenString with
  | [id, exp, _] =>
    match readNumber exp with
    | some n => .ok ⟨"alice", [], id, some (n * second), none⟩
    | none => .error (.new "token is malformed: could not decode claims")
  | _ => .error (.new "token is malformed: token contains an invalid number of segments")

def sampleSigned (tokenString : String) : Bool := (tokenFields tokenString)[2]? = some "signed"

/-- A library for such tokens. -/
def sampleJWT : JWT where
  newNumericDate t := t / second * second
  signedString claims := .ok
    (claims.id ++ "." ++ toString ((claims.expiresAt.getD 0) / second) ++ ".signed")
  signed tokenString := sampleSigned tokenString = true
  parseUnverified := sampleClaims
  parseWithClaims now tokenString :=
    match sampleClaims tokenString with
    | .error e => .error e
    | .ok claims =>
      if sampleSigned tokenString = false then .error (.new "token signature is invalid")
      else if claims.expiresAt.any (· ≤ now) then
        .error (.new "token has invalid claims: token is expired")
      else .ok claims
  parse_valid := by
    intro now tokenString claims h
    split at h
    · cases h
    split at h
    · cases h
    split at h
    · cases h
    rename_i claims' hparse hsigned hlive
    cases h
    refine ⟨by simpa using hsigned, hparse, fun exp hexp => ?_⟩
    simpa [hexp] using hlive

/-- A manager that revoked, at 10 s, a token that expires at 100 s. -/
def revokedManager : TokenManager :=
  ((TokenManager.new 0).revoke sampleJWT (10 * second) (10 * second) "t.100.signed").2

/-- That manager, after two forged tokens have been revoked: one with another id, and one with the
id of the token, which has expired and leaves no trace. -/
def othersRevoked : TokenManager :=
  (TokenOp.revoke "t.5.forged").exec sampleJWT (13 * second) (14 * second)
    ((TokenOp.revoke "u.30.forged").exec sampleJWT (11 * second) (12 * second) revokedManager)

/-- The token is still rejected at 50 s, by the store, and at 101 s, by the library. -/
theorem token_stays_revoked_sample :
    (∀ result, othersRevoked.validateToken sampleJWT (50 * second) (51 * second) "t.100.signed" ≠
      .ok result) ∧
    ∀ result, othersRevoked.validateToken sampleJWT (101 * second) (102 * second) "t.100.signed" ≠
      .ok result := by
  have hparse : sampleJWT.parseUnverified "t.100.signed" =
      .ok ⟨"alice", [], "t", some (100 * second), none⟩ := by decide +kernel
  have hother : sampleJWT.parseUnverified "u.30.forged" =
      .ok ⟨"alice", [], "u", some (30 * second), none⟩ := by decide +kernel
  have hexpired : sampleJWT.parseUnverified "t.5.forged" =
      .ok ⟨"alice", [], "t", some (5 * second), none⟩ := by decide +kernel
  have hkeepsOther : KeepsTokenRevoked sampleJWT "t" (100 * second) (11 * second) (12 * second)
      (.revoke "u.30.forged") := by
    intro claims e hclaims hid
    cases hother.symm.trans hclaims
    exact absurd hid (by decide)
  have hkeepsExpired : KeepsTokenRevoked sampleJWT "t" (100 * second) (13 * second) (14 * second)
      (.revoke "t.5.forged") := by
    intro claims e hclaims _ he
    cases hexpired.symm.trans hclaims
    cases he
    exact .inl (by decide)
  have hrun : Relation.ReflTransGen
      (TokenStep sampleJWT (KeepsTokenRevoked sampleJWT "t" (100 * second))) revokedManager
      othersRevoked :=
    .tail (.single (.exec _ (by decide +kernel) (by decide) hkeepsOther))
      (.exec _ (by decide +kernel) (by decide) hkeepsExpired)
  constructor
  · intro result
    exact (token_stays_revoked hparse rfl (by decide) (by decide) le_rfl hrun
      (by decide +kernel) (by decide) (.inl (by decide)) result).2
  · intro result
    exact (token_stays_revoked hparse rfl (by decide) (by decide) le_rfl hrun
      (by decide +kernel) (by decide) (.inr (by decide)) result).2

/-- **A revoked token is accepted again**: after an unsigned token with its id and an earlier
expiry has been revoked; when it expires between the two readings of the clock; and when it
expires later than the longest ttl. -/
theorem revoked_token_accepted :
    (sampleSigned "t.11.forged" = false ∧
      (((TokenOp.revoke "t.11.forged").exec sampleJWT (10 * second) (10 * second)
        revokedManager).validateToken sampleJWT (12 * second) (12 * second) "t.100.signed").isOk) ∧
    (revokedManager.validateToken sampleJWT (100 * second - 1) (100 * second + 1)
      "t.100.signed").isOk ∧
    (((TokenManager.new 0).revoke sampleJWT 0 0 "t.10000000000.signed").2.validateToken sampleJWT
      (9999999999 * second) (9999999999 * second) "t.10000000000.signed").isOk := by
  decide +kernel

end Polykey
