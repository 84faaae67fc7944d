/-
# The authorizer

`infra/auth.realAuthorizer`.  A call passes three gates that read its own arguments only: the
roles of the user, the identity in the requester context, and the common name of the client's
certificate.  Behind them stands a decision about the key, `checkAuthorization`, and in front of
that decision a cache of five minutes.

A cached decision is kept under the text `user:operation:key`.  The decision itself reads more
than that text: the tier in the requester context, the user's roles, and the metadata of the key.
So a hit repeats what was right for ANOTHER call at another time, and is wrong for this one where
the tier has changed, although nothing else has (`authorize_by_stale_cache`).  What does hold is
that there was such a call, and not long ago (`authorize_grounded`); the answer is right as long as
that call was made with the same tier and permissions, and the key has kept its contexts and its
profile since (`authorize_sound`).
-/
import Polykey.Service.Reads
import Polykey.Service.Scenario

namespace Polykey

open Lib

/-! ## 1. Configuration and the caller -/

/-- The operations, as the roles of the configuration name them. -/
def authKeysRead : String := "keys:read"
def authKeysCreate : String := "keys:create"
def authKeysList : String := "keys:list"
def authKeysRotate : String := "keys:rotate"
def authKeysRevoke : String := "keys:revoke"
def authKeysUpdate : String := "keys:update"

/-- `config.AuthorizationConfig`: the allowed operations of each role, and the zero-trust
policy. -/
structure AuthorizationConfig where
  roles : AList (fun _ : String => List String)
  enforceMTLSIdentityMatch : Bool

/-- `domain.AuthenticatedUser`: the permissions are names of roles. -/
structure AuthenticatedUser where
  id : String
  permissions : List String
  deriving DecidableEq, Repr

/-- What the interceptors leave in the context of a call: the user of the token, and the common
name of the peer's certificate. -/
structure CallContext where
  user : Option AuthenticatedUser
  peerCommonName : Option String

/-- `NewAuthorizer`'s policy cache. -/
def policyTTL : Duration := 5 * minute

namespace AuthorizationConfig

/-- Does the role allow everything? -/
def allowsAll (cfg : AuthorizationConfig) (roleName : String) : Bool :=
  roleName = "*" || (cfg.roles.lookup roleName).any fun ops => ops.contains "*"

/-- Does the role allow the operation? -/
def allows (cfg : AuthorizationConfig) (operation roleName : String) : Bool :=
  cfg.allowsAll roleName || (cfg.roles.lookup roleName).any fun ops => ops.contains operation

def isAdmin (cfg : AuthorizationConfig) (user : AuthenticatedUser) : Bool :=
  user.permissions.any cfg.allowsAll

/-- Does some role of the user allow the operation? -/
def grants (cfg : AuthorizationConfig) (user : AuthenticatedUser) (operation : String) : Bool :=
  user.permissions.any (cfg.allows operation)

/-- `authenticateAndAuthorize`: where it fails, it returns no user. -/
def authenticateAndAuthorize (cfg : AuthorizationConfig) (ctx : CallContext) (operation : String) :
    Except String AuthenticatedUser :=
  match ctx.user with
  | none => .error "missing_user_identity"
  | some user => if cfg.grants user operation then .ok user else .error "operation_not_allowed"

/-- The identity in the requester context, where there is one, has to be the token's. -/
def checkRequester (user : AuthenticatedUser) (reqContext : Option RequesterContext) :
    Except String Unit :=
  if hasIdentity reqContext ∧ identityOf reqContext ≠ user.id then
    .error ("mismatched_requester_identity_token=" ++ user.id ++ "_requester=" ++
      identityOf reqContext)
  else .ok ()

/-- `checkIdentityMatch`, where the configuration asks for it. -/
def checkIdentityMatch (cfg : AuthorizationConfig) (ctx : CallContext) (user : AuthenticatedUser) :
    Except String Unit :=
  if cfg.enforceMTLSIdentityMatch then
    match ctx.peerCommonName with
    | none => .error "missing_peer_certificate_for_identity_check"
    | some name =>
      if name ≠ user.id then .error ("mismatched_identity_cn=" ++ name ++ "_user=" ++ user.id)
      else .ok ()
  else .ok ()

end AuthorizationConfig

/-! ## 2. Decisions -/

/-- The operations that need a decision about the key. -/
def resourceOperations : List String :=
  [authKeysRead, authKeysRotate, authKeysRevoke, authKeysUpdate]

/-- The decision about a key, from what the repository says about it. -/
def checkKey (user : AuthenticatedUser) (reqContext : Option RequesterContext) :
    Except Err Key → Bool × String
  | .error e =>
    (false, if e.is .psqlErrKeyNotFound then "key_not_found" else "internal_error_accessing_key")
  | .ok key =>
    match key.metadata with
    | none => (false, "key_missing_metadata")
    | some m =>
      if user.id ∉ m.authorizedContexts then (false, "insufficient_key_permissions")
      else match reqContext with
        | none => (false, "requester_context_is_required_for_tier_validation")
        | some rc =>
          match validateTierForProfile (fromProtoTier rc.clientTier) m.storageType with
          | .error e => (false, e.text)
          | .ok () => (true, "authorized")

/-- `checkAuthorization`, over whatever answers `GetKey`. -/
def checkAuthorization {m : Type → Type} [Monad m] (getKey : KeyID → m (Except Err Key))
    (cfg : AuthorizationConfig) (user : AuthenticatedUser) (operation : String) (keyID : KeyID)
    (reqContext : Option RequesterContext) : m (Bool × String) :=
  if cfg.isAdmin user then pure (true, "authorized_by_admin_role")
  else if keyID.isZero then pure (true, "authorized")
  else if operation ∈ resourceOperations then do
    let answer ← getKey keyID
    pure (checkKey user reqContext answer)
  else pure (true, "authorized")

/-- `GetKey` of the repository, the error as an answer. -/
def getKeyAnswer (keyID : KeyID) : Svc (Except Err Key) := Act.attempt (repo (.getKey keyID))

/-- **The decision on a state of the repository.** -/
def checkAuthorizationOn (t : Table) (cfg : AuthorizationConfig) (user : AuthenticatedUser)
    (operation : String) (keyID : KeyID) (reqContext : Option RequesterContext) : Bool × String :=
  Id.run (checkAuthorization (fun id => pure (PSQLAdapter.getKey t id)) cfg user operation keyID
    reqContext)

/-- `realAuthorizer.getCacheKey`. -/
def policyKey (uuid : UUIDPkg) (userID operation : String) (keyID : KeyID) : String :=
  userID ++ ":" ++ operation ++ ":" ++ keyID.string uuid

/-- The audit event of a decision, and the decision. -/
def auditDecision (uuid : UUIDPkg) (identity operation : String) (keyID : KeyID)
    (decision : Bool × String) : Svc (Bool × String) := do
  Act.call (I := Effect) (.auditLog ⟨identity, operation, keyID.string uuid, decision.1,
    if decision.1 then none else some decision.2⟩)
  pure decision

/-- The decision behind the gates: the cached one, or a fresh one, which is cached if positive. -/
def cachedDecision (uuid : UUIDPkg) (cfg : AuthorizationConfig) (user : AuthenticatedUser)
    (reqContext : Option RequesterContext) (operation : String) (keyID : KeyID) :
    Svc (Bool × String) := do
  let cacheKey := policyKey uuid user.id operation keyID
  let cached ← Act.call (I := Effect) (.policyGet cacheKey)
  match cached with
  | some false => pure (false, "operation_not_allowed_by_cache")
  | some true => pure (true, "authorized_by_cache")
  | none =>
    let decision ← checkAuthorization getKeyAnswer cfg user operation keyID reqContext
    if decision.1 then
      Act.call (I := Effect) (.policySet cacheKey true 0)
      pure decision
    else pure decision

/-- `realAuthorizer.Authorize`. -/
def authorize (uuid : UUIDPkg) (cfg : AuthorizationConfig) (ctx : CallContext)
    (reqContext : Option RequesterContext) (operation : String) (keyID : KeyID) :
    Svc (Bool × String) :=
  match cfg.authenticateAndAuthorize ctx operation with
  | .error reason => auditDecision uuid "" operation keyID (false, reason)
  | .ok user =>
    match AuthorizationConfig.checkRequester user reqContext with
    | .error reason => auditDecision uuid user.id operation keyID (false, reason)
    | .ok () =>
      match cfg.checkIdentityMatch ctx user with
      | .error reason => auditDecision uuid user.id operation keyID (false, reason)
      | .ok () => do
        let decision ← cachedDecision uuid cfg user reqContext operation keyID
        auditDecision uuid user.id operation keyID decision

/-! ## 3. What a call does

`runs_authorize` takes a run of `Authorize` apart once: a gate that denies, or a decision, with
what it does to the policy cache (`Decided`). The results about sequences of calls use nothing
else of the code. -/

/-- The gates in front of the decision let the call of this user pass. -/
structure Admits (cfg : AuthorizationConfig) (ctx : CallContext)
    (reqContext : Option RequesterContext) (operation : String) (user : AuthenticatedUser) :
    Prop where
  authenticated : cfg.authenticateAndAuthorize ctx operation = .ok user
  requester : AuthorizationConfig.checkRequester user reqContext = .ok ()
  identity : cfg.checkIdentityMatch ctx user = .ok ()

variable {uuid : UUIDPkg} {kms : KMS} {cfg : AuthorizationConfig} {ctx : CallContext}
  {user : AuthenticatedUser} {reqContext : Option RequesterContext} {operation : String}
  {keyID : KeyID} {w w' : World} {d : Bool × String}

theorem runs_getKeyAnswer {answer : Except Err Key}
    (h : Act.Runs (worldSem uuid kms) (getKeyAnswer keyID) w (.ok answer) w') :
    (answer = PSQLAdapter.getKey w.table keyID ∨ ∃ e, answer = .error e) ∧
      ∃ now, w.clock ≤ now ∧ w' = { w with clock := now } := by
  obtain ⟨x, ⟨now, hnow, t', hans, rfl⟩, rfl⟩ := Act.runs_tryCall.mp (Act.runs_attempt.mp h)
  rcases hans with hexec | ⟨⟨e, he⟩, rfl⟩
  · obtain ⟨hx, rfl⟩ := Prod.mk.inj hexec
    exact ⟨.inl hx.symm, now, hnow, rfl⟩
  · exact ⟨.inr ⟨e, he⟩, now, hnow, rfl⟩

/-- A positive decision is the one the table supports. -/
theorem runs_checkAuthorization
    (h : Act.Runs (worldSem uuid kms)
      (checkAuthorization getKeyAnswer cfg user operation keyID reqContext) w (.ok d) w') :
    (d.1 = true → checkAuthorizationOn w.table cfg user operation keyID reqContext = d) ∧
      ∃ now, w.clock ≤ now ∧ w' = { w with clock := now } := by
  unfold checkAuthorization at h
  unfold checkAuthorizationOn checkAuthorization
  split at h
  · obtain ⟨hd, rfl⟩ := h
    cases hd
    rw [if_pos ‹_›]
    exact ⟨fun _ => rfl, _, le_rfl, rfl⟩
  rw [if_neg ‹_›]
  split at h
  · obtain ⟨hd, rfl⟩ := h
    cases hd
    rw [if_pos ‹_›]
    exact ⟨fun _ => rfl, _, le_rfl, rfl⟩
  rw [if_neg ‹_›]
  split at h
  · obtain ⟨answer, w₁, hget, hd, rfl⟩ := Act.runs_bind_ok.mp h
    cases hd
    rw [if_pos ‹_›]
    obtain ⟨hanswer, hw⟩ := runs_getKeyAnswer hget
    refine ⟨fun hd => ?_, hw⟩
    rcases hanswer with rfl | ⟨e, rfl⟩
    · rfl
    · cases hd
  · obtain ⟨hd, rfl⟩ := h
    cases hd
    rw [if_neg ‹_›]
    exact ⟨fun _ => rfl, _, le_rfl, rfl⟩

/-- What the decision behind the gates is, and what it does to the policy cache. -/
inductive Decided (uuid : UUIDPkg) (cfg : AuthorizationConfig) (user : AuthenticatedUser)
    (reqContext : Option RequesterContext) (operation : String) (keyID : KeyID) (w w' : World) :
    Bool × String → Prop
  | denied (reason : String) (hcache : w'.policyCache = w.policyCache) :
    Decided uuid cfg user reqContext operation keyID w w' (false, reason)
  | hit (now : Time) (hfrom : w.clock ≤ now)
    (hget : w.policyCache.get now (policyKey uuid user.id operation keyID) = some true)
    (hcache : w'.policyCache = w.policyCache) :
    Decided uuid cfg user reqContext operation keyID w w' (true, "authorized_by_cache")
  | fresh (now : Time) (hto : now ≤ w'.clock) (reason : String)
    (hcheck : checkAuthorizationOn w.table cfg user operation keyID reqContext = (true, reason))
    (hcache : w'.policyCache =
      w.policyCache.set now (policyKey uuid user.id operation keyID) true 0) :
    Decided uuid cfg user reqContext operation keyID w w' (true, reason)

theorem runs_cachedDecision
    (h : Act.Runs (worldSem uuid kms) (cachedDecision uuid cfg user reqContext operation keyID) w
      (.ok d) w') :
    Decided uuid cfg user reqContext operation keyID w w' d ∧ w'.table = w.table ∧
      w.clock ≤ w'.clock := by
  obtain ⟨cached, w₁, hget, hrest⟩ := Act.runs_bind_ok.mp h
  obtain ⟨now, hnow, hcached, rfl⟩ := Act.runs_call.mp hget
  split at hrest
  · obtain ⟨hd, rfl⟩ := hrest
    cases hd
    exact ⟨.denied _ rfl, rfl, hnow⟩
  · obtain ⟨hd, rfl⟩ := hrest
    cases hd
    exact ⟨.hit now hnow hcached.symm rfl, rfl, hnow⟩
  · obtain ⟨d', w₂, hcheck, hset⟩ := Act.runs_bind_ok.mp hrest
    obtain ⟨htrue, now₂, hnow₂, rfl⟩ := runs_checkAuthorization hcheck
    split at hset
    · obtain ⟨_, w₃, hcall, hd, rfl⟩ := Act.runs_bind_ok.mp hset
      obtain ⟨now₃, hnow₃, rfl⟩ := Act.runs_call.mp hcall
      cases hd
      obtain ⟨b, reason⟩ := d
      obtain rfl : b = true := ‹_›
      exact ⟨.fresh now₃ le_rfl reason (htrue rfl) rfl, rfl, hnow.trans (hnow₂.trans hnow₃)⟩
    · obtain ⟨hd, rfl⟩ := hset
      cases hd
      obtain ⟨b, reason⟩ := d
      obtain rfl : b = false := Bool.eq_false_of_not_eq_true ‹_›
      exact ⟨.denied _ rfl, rfl, hnow.trans hnow₂⟩

theorem runs_auditDecision {identity : String} {d' : Bool × String}
    (h : Act.Runs (worldSem uuid kms) (auditDecision uuid identity operation keyID d) w
      (.ok d') w') :
    d' = d ∧ ∃ now audit, w.clock ≤ now ∧ w' = { w with audit := audit, clock := now } := by
  obtain ⟨_, w₁, hcall, hd, rfl⟩ := Act.runs_bind_ok.mp h
  obtain ⟨now, hnow, rfl⟩ := Act.runs_call.mp hcall
  exact ⟨Except.ok.inj hd, now, _, hnow, rfl⟩

/-- A decision is the same one seen from later on. -/
theorem Decided.later {w₂ : World}
    (h : Decided uuid cfg user reqContext operation keyID w w' d)
    (hcache : w₂.policyCache = w'.policyCache) (hclock : w'.clock ≤ w₂.clock) :
    Decided uuid cfg user reqContext operation keyID w w₂ d := by
  cases h with
  | denied reason h => exact .denied reason (hcache.trans h)
  | hit now hfrom hget h => exact .hit now hfrom hget (hcache.trans h)
  | fresh now hto reason hcheck h =>
    exact .fresh now (hto.trans hclock) reason hcheck (hcache.trans h)

/-- **What `Authorize` does.**  It denies at a gate, or decides behind them. -/
theorem runs_authorize
    (h : Act.Runs (worldSem uuid kms) (authorize uuid cfg ctx reqContext operation keyID) w
      (.ok d) w') :
    (d.1 = false ∧ w'.policyCache = w.policyCache ∨
      ∃ user, Admits cfg ctx reqContext operation user ∧
        Decided uuid cfg user reqContext operation keyID w w' d) ∧
      w'.table = w.table ∧ w.clock ≤ w'.clock := by
  unfold authorize at h
  split at h
  · obtain ⟨rfl, now, audit, hnow, rfl⟩ := runs_auditDecision h
    exact ⟨.inl ⟨rfl, rfl⟩, rfl, hnow⟩
  rename_i user hauth
  split at h
  · obtain ⟨rfl, now, audit, hnow, rfl⟩ := runs_auditDecision h
    exact ⟨.inl ⟨rfl, rfl⟩, rfl, hnow⟩
  rename_i hreq
  split at h
  · obtain ⟨rfl, now, audit, hnow, rfl⟩ := runs_auditDecision h
    exact ⟨.inl ⟨rfl, rfl⟩, rfl, hnow⟩
  rename_i hident
  obtain ⟨d', w₁, hdecide, haudit⟩ := Act.runs_bind_ok.mp h
  obtain ⟨hdecided, htable, hclock⟩ := runs_cachedDecision hdecide
  obtain ⟨rfl, now, audit, hnow, rfl⟩ := runs_auditDecision haudit
  exact ⟨.inr ⟨user, ⟨hauth, hreq, hident⟩, hdecided.later rfl hnow⟩, htable, hclock.trans hnow⟩

/-- The authorizer always answers, where the calls that cannot block come back. -/
theorem authorize_settles {sem : Sem Effect World}
    (hsem : ∀ {op : EffectOp}, op.mayBlock = false → ∀ w, ∃ r w', sem op w r w') (uuid : UUIDPkg)
    (cfg : AuthorizationConfig) (ctx : CallContext) (reqContext : Option RequesterContext)
    (operation : String) (k : KeyID) :
    Act.Settles sem (authorize uuid cfg ctx reqContext operation k) := by
  have haudit : ∀ identity d, Act.Settles sem (auditDecision uuid identity operation k d) :=
    fun identity d => Act.Settles.bind (.call (hsem rfl)) fun _ => .pure d
  have hcheck : ∀ user, Act.Settles sem
      (checkAuthorization getKeyAnswer cfg user operation k reqContext) := by
    intro user
    unfold checkAuthorization
    split
    · exact .pure _
    split
    · exact .pure _
    split
    · exact Act.Settles.bind (.attempt (.tryCall (hsem rfl) _)) fun _ => .pure _
    · exact .pure _
  unfold authorize
  split
  · exact haudit _ _
  split
  · exact haudit _ _
  split
  · exact haudit _ _
  refine Act.Settles.bind ?_ fun d => haudit _ d
  refine Act.Settles.bind (.call (hsem rfl)) fun cached => ?_
  split
  · exact .pure _
  · exact .pure _
  refine Act.Settles.bind (hcheck _) fun d => ?_
  split
  · exact Act.Settles.bind (.call (hsem rfl)) fun _ => .pure d
  · exact .pure d

theorem Admits.granted (h : Admits cfg ctx reqContext operation user) :
    ctx.user = some user ∧ cfg.grants user operation = true := by
  have hauth := h.authenticated
  unfold AuthorizationConfig.authenticateAndAuthorize at hauth
  split at hauth
  · cases hauth
  · split at hauth
    · cases hauth
      exact ⟨‹_›, ‹_›⟩
    · cases hauth

/-- The cache key determines the key, and user and operation as far as the text between them
does. -/
theorem policyKey_eq {userID userID' operation' : String} {keyID' : KeyID}
    (h : policyKey uuid userID operation keyID = policyKey uuid userID' operation' keyID') :
    keyID = keyID' ∧ userID ++ ":" ++ operation = userID' ++ ":" ++ operation' := by
  have hlists := congrArg String.toList h
  simp only [policyKey, String.toList_append] at hlists
  have hlength : (keyID.string uuid).toList.length = (keyID'.string uuid).toList.length :=
    (uuid.length_text _).trans (uuid.length_text _).symm
  obtain ⟨hfront, hid⟩ := List.append_inj' hlists hlength
  refine ⟨KeyID.string_injective uuid (String.toList_injective hid), String.toList_injective ?_⟩
  simpa only [String.toList_append] using List.append_cancel_right hfront

/-! ## 4. Sequences of calls

The state carries the calls made so far.  An entry of the policy cache has a MAKER among them, the
last call that stored a decision under its text: that is what a later call with this text gets to
hear.  The invariant of the runs is that every entry has a maker, that the maker passed
`checkAuthorization` on its own arguments, and that the entry does not outlast the maker by more
than the ttl. -/

/-- The arguments of a call of `Authorize`. -/
structure AuthorizeCall where
  ctx : CallContext
  reqContext : Option RequesterContext
  operation : String
  keyID : KeyID

def AuthorizeCall.run (uuid : UUIDPkg) (cfg : AuthorizationConfig) (call : AuthorizeCall) :
    Svc (Bool × String) :=
  authorize uuid cfg call.ctx call.reqContext call.operation call.keyID

/-- `checkAuthorization` on the arguments of the call, for this user and on this table. -/
def AuthorizeCall.check (call : AuthorizeCall) (cfg : AuthorizationConfig)
    (user : AuthenticatedUser) (t : Table) : Bool :=
  (checkAuthorizationOn t cfg user call.operation call.keyID call.reqContext).1

/-- A call that has been made: the table it found, the decision, and the time it returned. -/
structure PastCall where
  call : AuthorizeCall
  table : Table
  decision : Bool × String
  time : Time

/-- The call has stored its decision under this text: a positive one that does not come from the
cache itself. -/
def PastCall.makes (uuid : UUIDPkg) (cacheKey : String) (p : PastCall) : Bool :=
  p.decision.1 && p.decision.2 ≠ "authorized_by_cache" &&
    p.call.ctx.user.any fun user =>
      policyKey uuid user.id p.call.operation p.call.keyID = cacheKey

/-- The call whose decision stands under a text: the last one that stored one. -/
def makerOf (uuid : UUIDPkg) (past : List PastCall) (cacheKey : String) : Option PastCall :=
  past.reverse.find? (PastCall.makes uuid cacheKey)

theorem makerOf_append (past : List PastCall) (p : PastCall) (cacheKey : String) :
    makerOf uuid (past ++ [p]) cacheKey =
      if p.makes uuid cacheKey then some p else makerOf uuid past cacheKey := by
  simp only [makerOf, List.reverse_append, List.reverse_singleton, List.singleton_append,
    List.find?_cons]
  split <;> simp_all

theorem makerOf_mem {past : List PastCall} {p : PastCall} {cacheKey : String}
    (h : makerOf uuid past cacheKey = some p) :
    p ∈ past ∧ ∃ user, p.call.ctx.user = some user ∧
      policyKey uuid user.id p.call.operation p.call.keyID = cacheKey := by
  refine ⟨List.mem_reverse.mp (List.mem_of_find?_eq_some h), ?_⟩
  have hmakes := List.find?_some h
  simp only [PastCall.makes, Bool.and_eq_true, Option.any_eq_true, decide_eq_true_eq] at hmakes
  exact hmakes.2

/-- The world of one authorizer, and the calls made so far. -/
structure AuthState where
  world : World
  past : List PastCall

/-- A call, an arbitrary change of the repository, or a cleanup of the policy cache. -/
inductive AuthStep (uuid : UUIDPkg) (kms : KMS) (cfg : AuthorizationConfig) :
    AuthState → AuthState → Prop
  | authorize {s : AuthState} (call : AuthorizeCall) {d : Bool × String} {w' : World}
    (hrun : Act.Runs (worldSem uuid kms) (call.run uuid cfg) s.world (.ok d) w') :
    AuthStep uuid kms cfg s ⟨w', s.past ++ [⟨call, s.world.table, d, w'.clock⟩]⟩
  | change {s : AuthState} (t : Table) {now : Time} (hnow : s.world.clock ≤ now) :
    AuthStep uuid kms cfg s ⟨{ s.world with table := t, clock := now }, s.past⟩
  | cleanup {s : AuthState} {now : Time} (hnow : s.world.clock ≤ now) :
    AuthStep uuid kms cfg s
      ⟨{ s.world with policyCache := (s.world.policyCache.deleteExpired now).1, clock := now },
        s.past⟩

/-- A new authorizer: no call made, nothing cached. -/
structure AuthState.New (s : AuthState) : Prop where
  past : s.past = []
  policyCache : s.world.policyCache = Cache.new String Bool policyTTL

/-- The maker of what stands under this text passed its own check, and the ttl of its decision ends
at the given time or later. -/
def Approved (uuid : UUIDPkg) (cfg : AuthorizationConfig) (past : List PastCall)
    (cacheKey : String) (gone : Time) : Prop :=
  ∃ p user, makerOf uuid past cacheKey = some p ∧ p.call.ctx.user = some user ∧
    p.call.check cfg user p.table = true ∧ gone ≤ p.time + policyTTL

/-- A call that stores nothing under a text leaves its maker alone. -/
theorem Approved.append {past : List PastCall} {p : PastCall} {cacheKey : String} {gone : Time}
    (h : Approved uuid cfg past cacheKey gone) (hp : p.makes uuid cacheKey = false) :
    Approved uuid cfg (past ++ [p]) cacheKey gone := by
  obtain ⟨maker, user, hmaker, rest⟩ := h
  refine ⟨maker, user, ?_, rest⟩
  rw [makerOf_append, hp]
  exact hmaker

/-- A fresh decision has a reason of its own. -/
theorem checkAuthorizationOn_reason {t : Table} {reason : String}
    (h : checkAuthorizationOn t cfg user operation keyID reqContext = (true, reason)) :
    reason ≠ "authorized_by_cache" := by
  have hkey : ∀ answer, checkKey user reqContext answer = (true, reason) →
      reason = "authorized" := by
    intro answer hanswer
    unfold checkKey at hanswer
    repeat' split at hanswer
    all_goals cases hanswer
    rfl
  have hreason : reason = "authorized_by_admin_role" ∨ reason = "authorized" := by
    unfold checkAuthorizationOn checkAuthorization at h
    split at h
    · cases h
      exact .inl rfl
    split at h
    · cases h
      exact .inr rfl
    split at h
    · exact .inr (hkey _ h)
    · cases h
      exact .inr rfl
  rcases hreason with rfl | rfl <;> decide

/-- The cache holds positive decisions only. -/
def Positive (cache : Cache String Bool) : Prop :=
  ∀ cacheKey i, cache.items.lookup cacheKey = some i → i.value = true

theorem Positive.set {cache : Cache String Bool} (h : Positive cache) (now : Time) (key : String)
    (ttl : Duration) : Positive (cache.set now key true ttl) := by
  intro cacheKey i hi
  by_cases hkey : cacheKey = key
  · subst hkey
    rw [Cache.lookup_set_self] at hi
    cases hi
    exact Cache.makeItem_value _ _ _ _
  · rw [Cache.lookup_set_ne _ _ _ _ hkey] at hi
    exact h cacheKey i hi

/-- Every entry of the policy cache was approved by a past call. -/
structure Grounded (uuid : UUIDPkg) (cfg : AuthorizationConfig) (s : AuthState) : Prop where
  defaultTTL : s.world.policyCache.defaultTTL = policyTTL
  positive : Positive s.world.policyCache
  approved : ∀ cacheKey i, s.world.policyCache.items.lookup cacheKey = some i →
    i.permanent = false ∧ Approved uuid cfg s.past cacheKey i.expiresAt

theorem Grounded.new {s : AuthState} (h : s.New) : Grounded uuid cfg s := by
  have hempty : ∀ cacheKey, s.world.policyCache.items.lookup cacheKey = none := by
    rw [h.policyCache]
    exact fun _ => rfl
  refine ⟨by rw [h.policyCache]; rfl, fun cacheKey i hi => ?_, fun cacheKey i hi => ?_⟩
  · rw [hempty] at hi
    cases hi
  · rw [hempty] at hi
    cases hi

/-- What one step keeps. -/
theorem Grounded.step {s s' : AuthState} (h : Grounded uuid cfg s)
    (hstep : AuthStep uuid kms cfg s s') : Grounded uuid cfg s' := by
  cases hstep with
  | change t hnow => exact ⟨h.defaultTTL, h.positive, h.approved⟩
  | cleanup hnow =>
    refine ⟨h.defaultTTL, fun cacheKey i hi => ?_, fun cacheKey i hi => ?_⟩
    · exact h.positive cacheKey i ((Cache.lookup_deleteExpired _ _ _ _).mp hi).1
    · exact h.approved cacheKey i ((Cache.lookup_deleteExpired _ _ _ _).mp hi).1
  | authorize call hrun =>
    rename_i d w'
    -- a call that stores nothing is nobody's maker
    have hold : w'.policyCache = s.world.policyCache →
        (d.1 = true → d.2 = "authorized_by_cache") →
        Grounded uuid cfg ⟨w', s.past ++ [⟨call, s.world.table, d, w'.clock⟩]⟩ := by
      intro hcache hd
      refine ⟨hcache ▸ h.defaultTTL, hcache ▸ h.positive, fun cacheKey i hi => ?_⟩
      obtain ⟨hperm, happroved⟩ := h.approved cacheKey i (hcache ▸ hi)
      refine ⟨hperm, happroved.append ?_⟩
      by_cases htrue : d.1 = true
      · simp [PastCall.makes, hd htrue]
      · simp [PastCall.makes, htrue]
    obtain ⟨⟨hfalse, hcache⟩ | ⟨user, hadmits, hdecided⟩, -, -⟩ := runs_authorize hrun
    · exact hold hcache fun htrue => by rw [hfalse] at htrue; cases htrue
    cases hdecided with
    | denied _ hcache => exact hold hcache fun htrue => by cases htrue
    | hit _ _ _ hcache => exact hold hcache fun _ => rfl
    | fresh now hto reason hcheck hcache =>
      refine ⟨hcache ▸ h.defaultTTL, hcache ▸ h.positive.set _ _ _, fun cacheKey i hi => ?_⟩
      have huser := hadmits.granted.1
      rw [hcache] at hi
      by_cases hkey : cacheKey = policyKey uuid user.id call.operation call.keyID
      · subst hkey
        rw [Cache.lookup_set_self] at hi
        cases hi
        have hitem : s.world.policyCache.makeItem now true 0 = ⟨true, now + policyTTL, false⟩ := by
          rw [← h.defaultTTL]
          rfl
        rw [hitem]
        refine ⟨rfl, ⟨call, s.world.table, (true, reason), w'.clock⟩, user, ?_, huser,
          congrArg Prod.fst hcheck, Int.add_le_add_right hto _⟩
        rw [makerOf_append, if_pos]
        simp [PastCall.makes, huser, checkAuthorizationOn_reason hcheck]
      · rw [Cache.lookup_set_ne _ _ _ _ hkey] at hi
        obtain ⟨hperm, happroved⟩ := h.approved cacheKey i hi
        refine ⟨hperm, happroved.append ?_⟩
        simp [PastCall.makes, huser, Ne.symm hkey]

/-- What every sequence of steps keeps. -/
theorem Grounded.run {s s' : AuthState} (h : Grounded uuid cfg s)
    (hrun : Relation.ReflTransGen (AuthStep uuid kms cfg) s s') : Grounded uuid cfg s' := by
  induction hrun with
  | refl => exact h
  | tail _ hstep ih => exact ih.step hstep

/-- A hit has a maker, and the maker is at most five minutes old. -/
theorem Grounded.maker {s : AuthState} (h : Grounded uuid cfg s) {cacheKey : String} {now : Time}
    (hfrom : s.world.clock ≤ now) (hget : s.world.policyCache.get now cacheKey = some true) :
    ∃ p user, makerOf uuid s.past cacheKey = some p ∧ p.call.ctx.user = some user ∧
      p.call.check cfg user p.table = true ∧ s.world.clock ≤ p.time + policyTTL := by
  obtain ⟨i, hi, hlive, -⟩ := Cache.get_eq_some.mp hget
  obtain ⟨hperm, p, user, hmaker, huser, hcheck, htime⟩ := h.approved cacheKey i hi
  have hnow : now ≤ i.expiresAt := by simpa [Cache.Item.expired, hperm] using hlive
  exact ⟨p, user, hmaker, huser, hcheck, hfrom.trans (hnow.trans htime)⟩

/-- **A positive answer is grounded.**  Where `Authorize` returns true, `checkAuthorization` holds
of the call's own arguments and of the repository as it is; or the answer comes from the cache, and
the call that made the entry, for the same key and with a user and an operation that make the same
text, passed `checkAuthorization` on its own arguments and on the repository of its time, at most
five minutes ago. -/
theorem authorize_grounded {s₀ s : AuthState} {call : AuthorizeCall} {reason : String}
    (hnew : s₀.New) (hrun : Relation.ReflTransGen (AuthStep uuid kms cfg) s₀ s)
    (hcall : Act.Runs (worldSem uuid kms) (call.run uuid cfg) s.world (.ok (true, reason)) w') :
    ∃ user, call.ctx.user = some user ∧
      (call.check cfg user s.world.table = true ∨
        reason = "authorized_by_cache" ∧ ∃ p user',
          makerOf uuid s.past (policyKey uuid user.id call.operation call.keyID) = some p ∧
          p.call.ctx.user = some user' ∧ p.call.keyID = call.keyID ∧
          user'.id ++ ":" ++ p.call.operation = user.id ++ ":" ++ call.operation ∧
          p.call.check cfg user' p.table = true ∧ s.world.clock ≤ p.time + policyTTL) := by
  have hground : Grounded uuid cfg s := (Grounded.new hnew).run hrun
  obtain ⟨⟨hfalse, -⟩ | ⟨user, hadmits, hdecided⟩, -, -⟩ := runs_authorize hcall
  · cases hfalse
  refine ⟨user, hadmits.granted.1, ?_⟩
  cases hdecided with
  | fresh now hto reason hcheck hcache => exact .inl (congrArg Prod.fst hcheck)
  | hit now hfrom hget hcache =>
    obtain ⟨p, user', hmaker, huser', hcheck, htime⟩ := hground.maker hfrom hget
    obtain ⟨-, user'', huser'', hkey⟩ := makerOf_mem hmaker
    obtain rfl : user' = user'' := Option.some.inj (huser'.symm.trans huser'')
    obtain ⟨hid, htext⟩ := policyKey_eq hkey
    exact .inr ⟨rfl, p, user', hmaker, huser', hid, htext, hcheck, htime⟩

/-! ## 5. When a cached decision is right

`checkAuthorization` is a function of less than it is given: of the requester context it reads the
tier, and of the key what `keyFacts` says.  Two calls that agree in that get the same decision, so
a cached decision is right for every call that agrees with its maker. -/

/-- What the decision reads of the repository's answer: the contexts of the key and its storage
profile, or that there is nothing to read them from. -/
def keyFacts : Except Err Key → Option (List String × StorageProfile)
  | .error _ => none
  | .ok key => key.metadata.map fun m => (m.authorizedContexts, m.storageType)

theorem checkKey_congr {reqContext' : Option RequesterContext} {answer answer' : Except Err Key}
    (htier : reqContext'.map (·.clientTier) = reqContext.map (·.clientTier))
    (hkey : keyFacts answer' = keyFacts answer) :
    (checkKey user reqContext' answer').1 = (checkKey user reqContext answer).1 := by
  -- the decision as a function of the tier and of the facts
  let decision (tier : Option ClientTier) (facts : Option (List String × StorageProfile)) : Bool :=
    facts.any fun f => f.1.contains user.id && tier.any fun tier =>
      (validateTierForProfile (fromProtoTier tier) f.2).toBool
  have hfactors : ∀ (rc : Option RequesterContext) (a : Except Err Key),
      (checkKey user rc a).1 = decision (rc.map (·.clientTier)) (keyFacts a) := by
    intro rc a
    cases a with
    | error e => rfl
    | ok key =>
      cases hmetadata : key.metadata with
      | none => simp [checkKey, keyFacts, decision, hmetadata]
      | some m =>
        by_cases hlisted : user.id ∈ m.authorizedContexts
        · cases rc with
          | none => simp [checkKey, keyFacts, decision, hmetadata, hlisted]
          | some rc =>
            cases htiers : validateTierForProfile (fromProtoTier rc.clientTier) m.storageType <;>
              simp [checkKey, keyFacts, decision, hmetadata, hlisted, htiers, Except.toBool]
        · simp [checkKey, keyFacts, decision, hmetadata, hlisted]
  rw [hfactors, hfactors, htier, hkey]

/-- A past call was made as this one is: with the same user and permissions and the same tier, and
the key has kept its contexts and its profile since. -/
structure MadeAlike (p : PastCall) (call : AuthorizeCall) (user : AuthenticatedUser) (t : Table) :
    Prop where
  user : p.call.ctx.user = some user
  tier : p.call.reqContext.map (·.clientTier) = call.reqContext.map (·.clientTier)
  key : keyFacts (PSQLAdapter.getKey p.table call.keyID) =
    keyFacts (PSQLAdapter.getKey t call.keyID)

/-- Two calls made alike are decided alike. -/
theorem MadeAlike.check_eq {p : PastCall} {call : AuthorizeCall} {t : Table}
    (h : MadeAlike p call user t) (hoperation : p.call.operation = call.operation)
    (hkeyID : p.call.keyID = call.keyID) :
    p.call.check cfg user p.table = call.check cfg user t := by
  have hsame : (checkKey user p.call.reqContext (PSQLAdapter.getKey p.table call.keyID)).1 =
      (checkKey user call.reqContext (PSQLAdapter.getKey t call.keyID)).1 :=
    checkKey_congr h.tier h.key
  unfold AuthorizeCall.check checkAuthorizationOn checkAuthorization
  rw [hoperation, hkeyID]
  split
  · rfl
  split
  · rfl
  split
  · exact hsame
  · rfl

/-- **When a positive answer is right.**  In every sequence of calls, changes of the repository and
cleanups, a call to which `Authorize` returns true passes `checkAuthorization` on its own arguments
and on the repository as it is, provided that the entry which may still stand under its text was
made by a call made alike. -/
theorem authorize_sound {s₀ s : AuthState} {call : AuthorizeCall} {reason : String}
    (hnew : s₀.New) (hrun : Relation.ReflTransGen (AuthStep uuid kms cfg) s₀ s)
    (huser : call.ctx.user = some user)
    (halike : ∀ p, makerOf uuid s.past (policyKey uuid user.id call.operation call.keyID) = some p →
      s.world.clock ≤ p.time + policyTTL → MadeAlike p call user s.world.table)
    (hcall : Act.Runs (worldSem uuid kms) (call.run uuid cfg) s.world (.ok (true, reason)) w') :
    call.check cfg user s.world.table = true := by
  obtain ⟨user₁, huser₁, hanswer⟩ := authorize_grounded hnew hrun hcall
  obtain rfl : user₁ = user := Option.some.inj (huser₁.symm.trans huser)
  obtain hfresh | ⟨-, p, user', hmaker, huser', hkeyID, htext, hcheck, htime⟩ := hanswer
  · exact hfresh
  · have hmade := halike p hmaker htime
    obtain rfl : user' = user₁ := Option.some.inj (huser'.symm.trans hmade.user)
    have hoperation : p.call.operation = call.operation := by
      have hlists := congrArg String.toList htext
      simp only [String.toList_append] at hlists
      exact String.toList_injective (List.append_cancel_left hlists)
    rw [← hmade.check_eq hoperation hkeyID]
    exact hcheck

/-! ### Two calls under one cache key -/

/-- Readers may read. -/
def sampleRoles : AuthorizationConfig where
  roles := AList.singleton "reader" [authKeysRead]
  enforceMTLSIdentityMatch := false

def sampleReader (id : String) : CallContext := ⟨some ⟨id, ["reader"]⟩, none⟩

/-- One key, with the given contexts and storage profile. -/
def sampleKeyTable (contexts : List String) (profile : StorageProfile) : Table :=
  (PSQLAdapter.createKey .empty (some {
    id := sampleID
    version := 1
    metadata := some { KeyMetadata.zero with
      keyId := sampleText, version := 1, authorizedContexts := contexts, storageType := profile }
    encryptedDEK := [1]
    status := .active
    createdAt := 0
    updatedAt := 0
    revokedAt := none })).2

/-- A new authorizer over that table. -/
def sampleAuth (contexts : List String) (profile : StorageProfile) : AuthState :=
  ⟨{ World.init 0 with table := sampleKeyTable contexts profile }, []⟩

theorem sampleAuth_new (contexts : List String) (profile : StorageProfile) :
    (sampleAuth contexts profile).New := ⟨rfl, rfl⟩

/-- A read of the key by alice, with the given tier. -/
def sampleAuthCall (tier : ClientTier) : AuthorizeCall :=
  ⟨sampleReader "alice", some ⟨"alice", tier⟩, authKeysRead, sampleID⟩

/-- The state after a call in the sample deployment. -/
def AuthState.afterCall (s : AuthState) (call : AuthorizeCall) : AuthState :=
  match Prog.exec sampleStep (call.run googleUUID sampleRoles) s.world with
  | some (.ok d, w') => ⟨w', s.past ++ [⟨call, s.world.table, d, w'.clock⟩]⟩
  | _ => s

theorem AuthState.afterCall_run (s : AuthState) (call : AuthorizeCall) :
    Relation.ReflTransGen (AuthStep googleUUID sampleKMS sampleRoles) s (s.afterCall call) := by
  unfold AuthState.afterCall
  split
  · rename_i d w' hexec
    exact .single (.authorize call (Prog.exec_runs sampleStep_sound hexec))
  · exact .refl

/-- Alice has read a hardened key as a pro client. -/
def proRead : AuthState := (sampleAuth ["alice"] .hardened).afterCall (sampleAuthCall .pro)

/-- Alice has read a standard key, and has then been taken off its contexts. -/
def removedAlice : AuthState :=
  let s := (sampleAuth ["alice"] .standard).afterCall (sampleAuthCall .free)
  ⟨{ s.world with table := sampleKeyTable [] .standard }, s.past⟩

theorem removedAlice_run :
    Relation.ReflTransGen (AuthStep googleUUID sampleKMS sampleRoles)
      (sampleAuth ["alice"] .standard) removedAlice :=
  (AuthState.afterCall_run _ _).tail (.change _ le_rfl)

/-- In that state the call returns true. -/
def ReturnsTrue (s : AuthState) (call : AuthorizeCall) : Prop :=
  ∃ reason w', Act.Runs (worldSem googleUUID sampleKMS) (call.run googleUUID sampleRoles) s.world
    (.ok (true, reason)) w'

theorem returnsTrue_of_exec {s : AuthState} {call : AuthorizeCall}
    (h : succeeds (call.run googleUUID sampleRoles) s.world Prod.fst = true) :
    ReturnsTrue s call := by
  obtain ⟨⟨b, reason⟩, w', hrun, hb⟩ := exists_run _ _ _ h
  obtain rfl : b = true := hb
  exact ⟨reason, w', hrun⟩

/-- A second read as a pro client is answered from the cache, and rightly. -/
theorem authorize_sound_proRead :
    (∃ reason w', reason = "authorized_by_cache" ∧
      Act.Runs (worldSem googleUUID sampleKMS) ((sampleAuthCall .pro).run googleUUID sampleRoles)
        proRead.world (.ok (true, reason)) w') ∧
    (sampleAuthCall .pro).check sampleRoles ⟨"alice", ["reader"]⟩ proRead.world.table = true := by
  obtain ⟨⟨b, reason⟩, w', hrun, hhit⟩ := exists_run
    ((sampleAuthCall .pro).run googleUUID sampleRoles) proRead.world
    (fun d => d.1 && d.2 = "authorized_by_cache") (by decide +kernel)
  simp only [Bool.and_eq_true, decide_eq_true_eq] at hhit
  obtain ⟨rfl, rfl⟩ := hhit
  refine ⟨⟨_, w', rfl, hrun⟩, authorize_sound (sampleAuth_new ["alice"] .hardened)
    (AuthState.afterCall_run _ (sampleAuthCall .pro)) rfl (fun p hp _ => ?_) hrun⟩
  have hmaker : (makerOf googleUUID proRead.past (policyKey googleUUID "alice" authKeysRead
      sampleID)).all (fun p => p.call.ctx.user = some ⟨"alice", ["reader"]⟩ &&
        p.call.reqContext.map (·.clientTier) = some .pro &&
        keyFacts (PSQLAdapter.getKey p.table sampleID) =
          keyFacts (PSQLAdapter.getKey proRead.world.table sampleID)) = true := by
    decide +kernel
  rw [show makerOf googleUUID proRead.past (policyKey googleUUID "alice" authKeysRead sampleID) =
    some p from hp] at hmaker
  simp only [Option.all_some, Bool.and_eq_true, decide_eq_true_eq] at hmaker
  exact ⟨hmaker.1.1, hmaker.1.2, hmaker.2⟩

/-- **A cached decision outlives what it rests on.**  It is repeated for a client whose tier may
not use the key, and for a user who has been taken off the key's contexts. -/
theorem authorize_by_stale_cache :
    ((∃ s₀ : AuthState, s₀.New ∧
        Relation.ReflTransGen (AuthStep googleUUID sampleKMS sampleRoles) s₀ proRead) ∧
      ReturnsTrue proRead (sampleAuthCall .free) ∧
      (sampleAuthCall .free).check sampleRoles ⟨"alice", ["reader"]⟩ proRead.world.table = false) ∧
    (∃ s₀ : AuthState, s₀.New ∧
        Relation.ReflTransGen (AuthStep googleUUID sampleKMS sampleRoles) s₀ removedAlice) ∧
      ReturnsTrue removedAlice (sampleAuthCall .free) ∧
      (sampleAuthCall .free).check sampleRoles ⟨"alice", ["reader"]⟩ removedAlice.world.table =
        false := by
  refine ⟨⟨⟨_, sampleAuth_new _ _, AuthState.afterCall_run _ _⟩, returnsTrue_of_exec ?_, ?_⟩,
    ⟨_, sampleAuth_new _ _, removedAlice_run⟩, returnsTrue_of_exec ?_, ?_⟩
  all_goals decide +kernel

end Polykey
