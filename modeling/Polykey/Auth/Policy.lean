/-
# The declared policy, and the audit of a decision

`Authorizer.lean` says what `Authorize` computes.  This module says what it is FOR: who may do what,
as a statement about the set of a user's permissions, the configuration and the key.  The code gets
there by two loops over the permissions with early exits, a check that skips empty identities, an
optional check of the certificate and a chain of six exits for the key.

* Where the policy cache has no answer, the decision is the declared one, whatever the repository
  answers (`authorize_iff_declared`).  It follows that the order of the permissions, and how often
  one is listed, do not matter, and that a further permission takes nothing away.
* Every decision is audited once.  The record names the user except at ONE of the seven exits: the
  helper that looks at the roles returns no user when it says no, so the code that wants to name the
  user has none to name (`authorize_audited_iff`).
-/
import Polykey.Auth.Authorizer

namespace Polykey

open Lib

/-! ## 1. The policy -/

/-- The permission stands for every operation: it is the wildcard, or a configured role that has
the wildcard among its operations. -/
def AllowsEverything (cfg : AuthorizationConfig) (permission : String) : Prop :=
  permission = "*" ∨ ∃ ops, cfg.roles.lookup permission = some ops ∧ "*" ∈ ops

/-- The permission stands for the operation, by itself or as one of all. -/
def AllowsOperation (cfg : AuthorizationConfig) (operation permission : String) : Prop :=
  permission = "*" ∨
    ∃ ops, cfg.roles.lookup permission = some ops ∧ ("*" ∈ ops ∨ operation ∈ ops)

/-- The key is there and grants access to the user: it lists them, and its profile is within what
the tier of the requester may use. -/
def KeyGrants (userID : String) (reqContext : Option RequesterContext) (answer : Except Err Key) :
    Prop :=
  ∃ key metadata rc, answer = .ok key ∧ key.metadata = some metadata ∧
    userID ∈ metadata.authorizedContexts ∧ reqContext = some rc ∧
    metadata.storageType.number ≤ (getStorageProfileForTier (fromProtoTier rc.clientTier)).number

/-- **Who may do what**: a user with an id and a SET of permissions, given what the repository
answers about the key. -/
structure Declared (cfg : AuthorizationConfig) (peerCommonName : Option String)
    (reqContext : Option RequesterContext) (operation : String) (keyID : KeyID)
    (answer : Except Err Key) (userID : String) (permissions : Set String) : Prop where
  permitted : ∃ permission ∈ permissions, AllowsOperation cfg operation permission
  requester : ∀ rc, reqContext = some rc → rc.clientIdentity = "" ∨ rc.clientIdentity = userID
  certificate : cfg.enforceMTLSIdentityMatch = true → peerCommonName = some userID
  resource : (∃ permission ∈ permissions, AllowsEverything cfg permission) ∨ keyID = .nil ∨
    operation ∉ ({authKeysRead, authKeysRotate, authKeysRevoke, authKeysUpdate} : Set String) ∨
    KeyGrants userID reqContext answer

/-- A further permission takes nothing away. -/
theorem Declared.mono {cfg : AuthorizationConfig} {peerCommonName : Option String}
    {reqContext : Option RequesterContext} {operation : String} {keyID : KeyID}
    {answer : Except Err Key} {userID : String} {permissions more : Set String}
    (h : Declared cfg peerCommonName reqContext operation keyID answer userID permissions)
    (hmore : permissions ⊆ more) :
    Declared cfg peerCommonName reqContext operation keyID answer userID more := by
  obtain ⟨permission, hmem, hallows⟩ := h.permitted
  refine ⟨⟨permission, hmore hmem, hallows⟩, h.requester, h.certificate, ?_⟩
  rcases h.resource with ⟨admin, hadmin, hall⟩ | hrest
  · exact .inl ⟨admin, hmore hadmin, hall⟩
  · exact .inr hrest

/-! ## 2. What the checks compute

The loops over the permissions ask whether SOME permission is such and such, so order and
repetition are gone as soon as they are stated as properties of the set. Each of the checks has
one equivalence. -/

section Checks

variable {cfg : AuthorizationConfig} {ctx : CallContext} {user : AuthenticatedUser}
  {reqContext : Option RequesterContext} {operation : String} {keyID : KeyID}
  {answer : Except Err Key}

/-- The permissions of a user, as a set. -/
def AuthenticatedUser.permissionSet (user : AuthenticatedUser) : Set String :=
  { permission | permission ∈ user.permissions }

theorem allowsAll_iff (permission : String) :
    cfg.allowsAll permission = true ↔ AllowsEverything cfg permission := by
  simp [AuthorizationConfig.allowsAll, AllowsEverything, Option.any_eq_true]

theorem allows_iff (permission : String) :
    cfg.allows operation permission = true ↔ AllowsOperation cfg operation permission := by
  simp only [AuthorizationConfig.allows, Bool.or_eq_true, allowsAll_iff, AllowsEverything,
    AllowsOperation, Option.any_eq_true, List.contains_eq_mem, decide_eq_true_eq, or_assoc,
    ← exists_or, ← and_or_left]

theorem isAdmin_iff : cfg.isAdmin user = true ↔
    ∃ permission ∈ user.permissionSet, AllowsEverything cfg permission := by
  simp [AuthorizationConfig.isAdmin, AuthenticatedUser.permissionSet, allowsAll_iff]

theorem grants_iff : cfg.grants user operation = true ↔
    ∃ permission ∈ user.permissionSet, AllowsOperation cfg operation permission := by
  simp [AuthorizationConfig.grants, AuthenticatedUser.permissionSet, allows_iff]

theorem checkRequester_iff : AuthorizationConfig.checkRequester user reqContext = .ok () ↔
    ∀ rc, reqContext = some rc → rc.clientIdentity = "" ∨ rc.clientIdentity = user.id := by
  unfold AuthorizationConfig.checkRequester
  cases reqContext with
  | none => simp [hasIdentity]
  | some rc =>
    by_cases hempty : rc.clientIdentity = ""
    · simp [hasIdentity, hempty]
    · by_cases hsame : rc.clientIdentity = user.id
      · simp [identityOf, hsame]
      · simp [hasIdentity, identityOf, hempty, hsame]

theorem checkIdentityMatch_iff : cfg.checkIdentityMatch ctx user = .ok () ↔
    (cfg.enforceMTLSIdentityMatch = true → ctx.peerCommonName = some user.id) := by
  unfold AuthorizationConfig.checkIdentityMatch
  split
  · rename_i henforced
    cases ctx.peerCommonName with
    | none => simp [henforced]
    | some name =>
      by_cases hsame : name = user.id
      · simp [hsame]
      · simp [henforced, hsame]
  · rename_i henforced
    simp [henforced]

theorem checkKey_iff : (checkKey user reqContext answer).1 = true ↔
    KeyGrants user.id reqContext answer := by
  unfold KeyGrants
  cases answer with
  | error e => simp [checkKey]
  | ok key =>
    cases hmetadata : key.metadata with
    | none => simp [checkKey, hmetadata]
    | some metadata =>
      by_cases hlisted : user.id ∈ metadata.authorizedContexts
      · cases reqContext with
        | none => simp [checkKey, hmetadata, hlisted]
        | some rc =>
          by_cases hprofile : (getStorageProfileForTier (fromProtoTier rc.clientTier)).number <
              metadata.storageType.number
          · simp [checkKey, hmetadata, hlisted, validateTierForProfile, hprofile]
          · simp [checkKey, hmetadata, hlisted, validateTierForProfile, hprofile,
              Int.not_lt.mp hprofile]
      · simp [checkKey, hmetadata, hlisted]

end Checks

/-! ## 3. The decision on a cache miss

The answer of the repository is made a parameter (`decidingSem`): the policy is to hold for
whatever `GetKey` answers, also for an error. That the runs of the world are among these is
`exists_deciding`. -/

/-- The world, in which the policy cache has no answer and the repository answers this to `GetKey`,
whatever is stored. -/
def decidingSem (uuid : UUIDPkg) (kms : KMS) (answer : Except Err Key) : Sem Effect World
  | .repo (.getKey _), w, r, w' => r = answer ∧ ∃ now, w.clock ≤ now ∧ w' = { w with clock := now }
  | .policyGet _, w, r, w' => r = none ∧ ∃ now, w.clock ≤ now ∧ w' = { w with clock := now }
  | op, w, r, w' => worldSem uuid kms op w r w'

section Deciding

variable {uuid : UUIDPkg} {kms : KMS} {cfg : AuthorizationConfig} {ctx : CallContext}
  {user : AuthenticatedUser} {reqContext : Option RequesterContext} {operation : String}
  {keyID : KeyID} {answer : Except Err Key} {w w' : World} {d : Bool × String}

theorem decidingSem_returns {op : EffectOp} (hop : op.mayBlock = false) (w : World) :
    ∃ r w', decidingSem uuid kms answer op w r w' := by
  cases op with
  | repo rop =>
    cases rop with
    | getKey id => exact ⟨answer, w, rfl, w.clock, le_rfl, rfl⟩
    | _ => exact worldSem_returns uuid kms hop w
  | policyGet key => exact ⟨none, w, rfl, w.clock, le_rfl, rfl⟩
  | _ => exact worldSem_returns uuid kms hop w

/-- The decision behind the gates. -/
theorem checkAuthorization_iff
    (h : Act.Runs (decidingSem uuid kms answer)
      (checkAuthorization getKeyAnswer cfg user operation keyID reqContext) w (.ok d) w') :
    d.1 = true ↔ (∃ permission ∈ user.permissionSet, AllowsEverything cfg permission) ∨
      keyID = .nil ∨
      operation ∉ ({authKeysRead, authKeysRotate, authKeysRevoke, authKeysUpdate} : Set String) ∨
      KeyGrants user.id reqContext answer := by
  have hresource : operation ∈ resourceOperations ↔ operation ∈
      ({authKeysRead, authKeysRotate, authKeysRevoke, authKeysUpdate} : Set String) := by
    simp [resourceOperations]
  rw [← isAdmin_iff, ← hresource]
  unfold checkAuthorization at h
  split at h
  · cases h.1
    simp [*]
  rename_i hadmin
  split at h
  · rename_i hzero
    cases h.1
    simp [of_decide_eq_true hzero]
  rename_i hzero
  have hnil : keyID ≠ .nil := fun hnil => hzero (decide_eq_true hnil)
  split at h
  · rename_i hop
    obtain ⟨x, w₁, hget, hd, -⟩ := Act.runs_bind_ok.mp h
    cases hd
    obtain ⟨y, ⟨rfl, -⟩, rfl⟩ := Act.runs_tryCall.mp (Act.runs_attempt.mp hget)
    rw [checkKey_iff]
    simp [hadmin, hnil, hop]
  · rename_i hop
    cases h.1
    simp [hop]

theorem cachedDecision_iff
    (h : Act.Runs (decidingSem uuid kms answer)
      (cachedDecision uuid cfg user reqContext operation keyID) w (.ok d) w') :
    ∃ w₁ w₂, Act.Runs (decidingSem uuid kms answer)
      (checkAuthorization getKeyAnswer cfg user operation keyID reqContext) w₁ (.ok d) w₂ := by
  obtain ⟨cached, w₁, hget, hrest⟩ := Act.runs_bind_ok.mp h
  obtain ⟨rfl, -⟩ := Act.runs_call.mp hget
  obtain ⟨d', w₂, hcheck, hset⟩ := Act.runs_bind_ok.mp hrest
  obtain rfl : d' = d := by
    split at hset
    · obtain ⟨_, _, -, hd, -⟩ := Act.runs_bind_ok.mp hset
      exact (Except.ok.inj hd).symm
    · exact (Except.ok.inj hset.1).symm
  exact ⟨w₁, w₂, hcheck⟩

theorem auditDecision_same {identity : String} {d' : Bool × String}
    (h : Act.Runs (decidingSem uuid kms answer) (auditDecision uuid identity operation keyID d) w
      (.ok d') w') : d' = d := by
  obtain ⟨_, _, -, hd, -⟩ := Act.runs_bind_ok.mp h
  exact Except.ok.inj hd

/-- **`Authorize` decides the policy.** -/
theorem authorize_decides
    (h : Act.Runs (decidingSem uuid kms answer)
      (authorize uuid cfg ctx reqContext operation keyID) w (.ok d) w') :
    d.1 = true ↔ ∃ user, ctx.user = some user ∧ Declared cfg ctx.peerCommonName reqContext operation
      keyID answer user.id user.permissionSet := by
  unfold authorize AuthorizationConfig.authenticateAndAuthorize at h
  cases huser : ctx.user with
  | none =>
    rw [huser] at h
    obtain rfl := auditDecision_same h
    simp
  | some user =>
    simp only [huser] at h
    simp only [Option.some.injEq, exists_eq_left']
    -- each gate denies exactly when its part of the policy fails
    by_cases hgrants : cfg.grants user operation = true
    · rw [if_pos hgrants] at h
      simp only at h
      split at h
      · rename_i hrequester
        obtain rfl := auditDecision_same h
        refine ⟨fun hd => (by cases hd), fun hdeclared => ?_⟩
        rw [checkRequester_iff.mpr hdeclared.requester] at hrequester
        cases hrequester
      · rename_i hrequester
        split at h
        · rename_i hidentity
          obtain rfl := auditDecision_same h
          refine ⟨fun hd => (by cases hd), fun hdeclared => ?_⟩
          rw [checkIdentityMatch_iff.mpr hdeclared.certificate] at hidentity
          cases hidentity
        · rename_i hidentity
          obtain ⟨d', w₁, hdecision, haudit⟩ := Act.runs_bind_ok.mp h
          obtain rfl := auditDecision_same haudit
          obtain ⟨w₂, w₃, hcheck⟩ := cachedDecision_iff hdecision
          rw [checkAuthorization_iff hcheck]
          refine ⟨fun hresource => ?_, fun hdeclared => hdeclared.resource⟩
          exact ⟨grants_iff.mp hgrants, checkRequester_iff.mp hrequester,
            checkIdentityMatch_iff.mp hidentity, hresource⟩
    · rw [if_neg hgrants] at h
      obtain rfl := auditDecision_same h
      refine ⟨fun hd => (by cases hd), fun hdeclared => ?_⟩
      exact absurd (grants_iff.mpr hdeclared.permitted) hgrants

/-- What `GetKey` has answered, the table's answer or an error, is an answer to decide by. -/
theorem exists_deciding_check
    (h : Act.Runs (worldSem uuid kms)
      (checkAuthorization getKeyAnswer cfg user operation keyID reqContext) w (.ok d) w') :
    ∃ answer, (answer = PSQLAdapter.getKey w.table keyID ∨ ∃ e, answer = .error e) ∧
      Act.Runs (decidingSem uuid kms answer)
        (checkAuthorization getKeyAnswer cfg user operation keyID reqContext) w (.ok d) w' := by
  unfold checkAuthorization at h ⊢
  split at h
  · rw [if_pos ‹_›]
    exact ⟨_, .inl rfl, h⟩
  rw [if_neg ‹_›]
  split at h
  · rw [if_pos ‹_›]
    exact ⟨_, .inl rfl, h⟩
  rw [if_neg ‹_›]
  split at h
  · rw [if_pos ‹_›]
    obtain ⟨answer, w₁, hget, hd⟩ := Act.runs_bind_ok.mp h
    obtain ⟨hanswer, now, hnow, rfl⟩ := runs_getKeyAnswer hget
    refine ⟨answer, hanswer, Act.runs_bind_ok.mpr ⟨answer, _, ?_, hd⟩⟩
    exact Act.runs_attempt.mpr (Act.runs_tryCall.mpr ⟨answer, ⟨rfl, now, hnow, rfl⟩, rfl⟩)
  · rw [if_neg ‹_›]
    exact ⟨_, .inl rfl, h⟩

/-- **A run that finds nothing in the policy cache is one of these**, for the answer that the
repository has given in it. -/
theorem exists_deciding
    (hmiss : ∀ user, ctx.user = some user → ∀ now, w.clock ≤ now →
      w.policyCache.get now (policyKey uuid user.id operation keyID) = none)
    (h : Act.Runs (worldSem uuid kms) (authorize uuid cfg ctx reqContext operation keyID) w
      (.ok d) w') :
    ∃ answer, (answer = PSQLAdapter.getKey w.table keyID ∨ ∃ e, answer = .error e) ∧
      Act.Runs (decidingSem uuid kms answer) (authorize uuid cfg ctx reqContext operation keyID) w
        (.ok d) w' := by
  unfold authorize at h ⊢
  split at h
  · exact ⟨_, .inl rfl, h⟩
  rename_i user hauth
  split at h
  · exact ⟨_, .inl rfl, h⟩
  rename_i hrequester
  split at h
  · exact ⟨_, .inl rfl, h⟩
  rename_i hidentity
  have hadmits : Admits cfg ctx reqContext operation user := ⟨hauth, hrequester, hidentity⟩
  obtain ⟨d', w₁, hdecision, haudit⟩ := Act.runs_bind_ok.mp h
  obtain ⟨cached, w₂, hget, hrest⟩ := Act.runs_bind_ok.mp hdecision
  obtain ⟨now, hnow, hcached, rfl⟩ := Act.runs_call.mp hget
  rw [hmiss user hadmits.granted.1 now hnow] at hcached
  subst hcached
  obtain ⟨d'', w₃, hcheck, hset⟩ := Act.runs_bind_ok.mp hrest
  obtain ⟨answer, hanswer, hcheck'⟩ := exists_deciding_check hcheck
  refine ⟨answer, hanswer, Act.runs_bind_ok.mpr ⟨d', w₁, ?_, haudit⟩⟩
  refine Act.runs_bind_ok.mpr ⟨none, _, Act.runs_call.mpr ⟨rfl, now, hnow, rfl⟩, ?_⟩
  refine Act.runs_bind_ok.mpr ⟨d'', w₃, hcheck', ?_⟩
  split at hset
  · rw [if_pos ‹_›]
    exact hset
  · rw [if_neg ‹_›]
    exact hset

end Deciding

/-- `Authorize` can return this decision, on a cache miss and with this answer about the key. -/
def Decides (uuid : UUIDPkg) (kms : KMS) (cfg : AuthorizationConfig) (ctx : CallContext)
    (reqContext : Option RequesterContext) (operation : String) (keyID : KeyID)
    (answer : Except Err Key) (w : World) (authorized : Bool) : Prop :=
  ∃ reason w', Act.Runs (decidingSem uuid kms answer)
    (authorize uuid cfg ctx reqContext operation keyID) w (.ok (authorized, reason)) w'

/-- **On a cache miss the authorizer decides the declared policy**, for every configuration, caller,
operation, key and answer of the repository: it always decides, and in favour exactly of those whom
the policy names.  So the decision depends on the set of the permissions only, and one more of them
never turns an allow into a deny. -/
theorem authorize_iff_declared (uuid : UUIDPkg) (kms : KMS) (cfg : AuthorizationConfig)
    (ctx : CallContext) (reqContext : Option RequesterContext) (operation : String) (keyID : KeyID)
    (answer : Except Err Key) (w : World) :
    (∃ authorized, Decides uuid kms cfg ctx reqContext operation keyID answer w authorized) ∧
    (∀ authorized, Decides uuid kms cfg ctx reqContext operation keyID answer w authorized →
      (authorized = true ↔ ∃ user, ctx.user = some user ∧ Declared cfg ctx.peerCommonName reqContext
        operation keyID answer user.id user.permissionSet)) ∧
    ∀ user user' authorized authorized', user'.id = user.id →
      Decides uuid kms cfg { ctx with user := some user } reqContext operation keyID answer w
        authorized →
      Decides uuid kms cfg { ctx with user := some user' } reqContext operation keyID answer w
        authorized' →
      (user.permissionSet = user'.permissionSet → authorized = authorized') ∧
      (user.permissionSet ⊆ user'.permissionSet → authorized = true → authorized' = true) := by
  have hsettles : ∀ ctx, Act.Settles (decidingSem uuid kms answer)
      (authorize uuid cfg ctx reqContext operation keyID) := fun ctx =>
    authorize_settles decidingSem_returns uuid cfg ctx reqContext operation keyID
  refine ⟨?_, ?_, ?_⟩
  · obtain ⟨r, w', hrun⟩ := (hsettles ctx).returns w
    obtain ⟨⟨authorized, reason⟩, rfl⟩ := (hsettles ctx).succeeds w r w' hrun
    exact ⟨authorized, reason, w', hrun⟩
  · rintro authorized ⟨reason, w', hrun⟩
    exact authorize_decides hrun
  · rintro user user' authorized authorized' hid ⟨reason, w₁, hrun⟩ ⟨reason', w₁', hrun'⟩
    have hiff := authorize_decides hrun
    have hiff' := authorize_decides hrun'
    simp only [Option.some.injEq, exists_eq_left', hid] at hiff hiff'
    refine ⟨fun hset => ?_, fun hsub htrue => hiff'.mpr ((hiff.mp htrue).mono hsub)⟩
    rw [← hset, ← hiff] at hiff'
    exact (Bool.eq_iff_iff.mpr hiff').symm

/-- A reader may read a key that lists them. -/
theorem authorize_iff_declared_reader :
    ∃ authorized, Decides googleUUID sampleKMS sampleRoles (sampleReader "alice")
      (some ⟨"alice", .free⟩) authKeysRead sampleID
      (PSQLAdapter.getKey (sampleKeyTable ["alice"] .standard) sampleID) (.init 0) authorized ∧
      authorized = true := by
  obtain ⟨⟨authorized, hdecides⟩, hiff, -⟩ := authorize_iff_declared googleUUID sampleKMS
    sampleRoles (sampleReader "alice") (some ⟨"alice", .free⟩) authKeysRead sampleID
    (PSQLAdapter.getKey (sampleKeyTable ["alice"] .standard) sampleID) (.init 0)
  refine ⟨authorized, hdecides, (hiff authorized hdecides).mpr ⟨_, rfl, ?_⟩⟩
  refine ⟨grants_iff.mp (by decide +kernel), checkRequester_iff.mp (by decide +kernel),
    fun henforced => (by cases henforced), .inr (.inr (.inr (checkKey_iff.mp ?_)))⟩
  decide +kernel

/-! ## 4. The audit of a decision

Emitting an event is one call of the interface. It is enough to see which parts of `Authorize`
make no such call, and that every exit makes one. -/

section Audit

variable {uuid : UUIDPkg} {kms : KMS} {cfg : AuthorizationConfig} {ctx : CallContext}
  {user : AuthenticatedUser} {reqContext : Option RequesterContext} {operation : String}
  {keyID : KeyID} {w w' : World} {d : Bool × String}

/-- The call has come back with a decision, and has emitted exactly one event: of that decision, of
the operation and the key of the call, and under this identity. -/
def AuditedOnce (uuid : UUIDPkg) (operation : String) (keyID : KeyID) (identity : String)
    (w w' : World) (r : Except Err (Bool × String)) : Prop :=
  ∃ authorized reason event, r = .ok (authorized, reason) ∧ w'.audit = w.audit ++ [event] ∧
    event.success = authorized ∧ event.operation = operation ∧
    event.keyID = keyID.string uuid ∧ event.clientIdentity = identity

/-- Is it an event for the audit log? -/
def EffectOp.isAudit : EffectOp → Bool
  | auditLog _ => true
  | _ => false

/-- No other call emits an event. -/
theorem worldSem_audit {op : EffectOp} {r : op.Res} (h : worldSem uuid kms op w r w')
    (hop : op.isAudit = false) : w'.audit = w.audit := by
  obtain ⟨now, -, h⟩ := h
  cases op with
  | auditLog event => cases hop
  | repo rop =>
    obtain ⟨t', -, rfl⟩ := h
    rfl
  | newKeyID | policySet _ _ _ =>
    cases h
    rfl
  | enqueue req =>
    simp only [stepAt] at h
    split at h <;> obtain ⟨-, rfl⟩ := h <;> rfl
  | awaitResult =>
    rcases h with ⟨res, rest, -, -, rfl⟩ | ⟨-, rfl⟩ <;> rfl
  | takeRequest =>
    obtain ⟨rest, -, rfl⟩ := h
    rfl
  | encryptDEK _ _ _ | decryptDEK _ _ | timeNow | randRead _ | sendResult _ | policyGet _ =>
    obtain ⟨-, rfl⟩ := h
    rfl

theorem runs_silent {α : Type} {p : Svc α} {r : Except Err α}
    (hp : Act.Only (fun op : EffectOp => op.isAudit = false) p)
    (h : Act.Runs (worldSem uuid kms) p w r w') : w'.audit = w.audit := by
  have hkeep : ∀ op : EffectOp, op.isAudit = false → ∀ w₁ r w₂, worldSem uuid kms op w₁ r w₂ →
      w₁.audit = w.audit → w₂.audit = w.audit :=
    fun op hop w₁ r w₂ hstep h => (worldSem_audit hstep hop).trans h
  exact Prog.Only.keeps (F := fun w₁ : World => w₁.audit = w.audit) hkeep hp h rfl

theorem cachedDecision_silent :
    Act.Only (fun op : EffectOp => op.isAudit = false)
      (cachedDecision uuid cfg user reqContext operation keyID) := by
  have hcheck : Act.Only (fun op : EffectOp => op.isAudit = false)
      (checkAuthorization getKeyAnswer cfg user operation keyID reqContext) := by
    have hget : Act.Only (fun op : EffectOp => op.isAudit = false) (repo (.getKey keyID)) :=
      ⟨rfl, fun _ => trivial⟩
    exact .ite (.pure _) (.ite (.pure _) (.ite (.bind hget.attempt fun _ => .pure _) (.pure _)))
  refine .bind (.call rfl) fun cached => ?_
  rcases cached with _ | _ | _
  · exact .bind hcheck fun decision => .ite (.bind (.call rfl) fun _ => .pure _) (.pure _)
  · exact .pure _
  · exact .pure _

theorem auditDecision_audited {identity : String} {r : Except Err (Bool × String)}
    (h : Act.Runs (worldSem uuid kms) (auditDecision uuid identity operation keyID d) w r w') :
    AuditedOnce uuid operation keyID identity w w' r := by
  have hsettles : Act.Settles (worldSem uuid kms) (auditDecision uuid identity operation keyID d) :=
    .bind (.call (worldSem_returns uuid kms rfl)) fun _ => .pure d
  obtain ⟨d', rfl⟩ := hsettles.succeeds w r w' h
  obtain ⟨_, w₁, hcall, hd, rfl⟩ := Act.runs_bind_ok.mp h
  obtain ⟨now, -, rfl⟩ := Act.runs_call.mp hcall
  cases hd
  exact ⟨_, _, _, rfl, rfl, rfl, rfl, rfl, rfl⟩

/-- **Every exit emits one event**, and all but the first name the user. -/
theorem authorize_audited (hctx : ctx.user = some user) {r : Except Err (Bool × String)}
    (h : Act.Runs (worldSem uuid kms) (authorize uuid cfg ctx reqContext operation keyID) w r w') :
    AuditedOnce uuid operation keyID (if cfg.grants user operation then user.id else "") w w'
      r := by
  have hsettles := authorize_settles (worldSem_returns uuid kms) uuid cfg ctx reqContext operation
    keyID
  obtain ⟨d, rfl⟩ := hsettles.succeeds w r w' h
  unfold authorize AuthorizationConfig.authenticateAndAuthorize at h
  simp only [hctx] at h
  split
  · rw [if_pos ‹_›] at h
    simp only at h
    split at h
    · exact auditDecision_audited h
    split at h
    · exact auditDecision_audited h
    obtain ⟨d', w₁, hdecision, haudit⟩ := Act.runs_bind_ok.mp h
    have hsame : w₁.audit = w.audit := runs_silent cachedDecision_silent hdecision
    obtain ⟨authorized, reason, event, hr, haudit, hrest⟩ := auditDecision_audited haudit
    exact ⟨authorized, reason, event, hr, hsame ▸ haudit, hrest⟩
  · rw [if_neg ‹_›] at h
    exact auditDecision_audited h

/-- **The record of a decision names the user exactly when a role allows the operation**, or when
the user has no name. -/
theorem authorize_audited_iff (uuid : UUIDPkg) (kms : KMS) (cfg : AuthorizationConfig)
    (ctx : CallContext) (user : AuthenticatedUser) (reqContext : Option RequesterContext)
    (operation : String) (keyID : KeyID) (w : World) (hctx : ctx.user = some user) :
    (∀ r w', Act.Runs (worldSem uuid kms) (authorize uuid cfg ctx reqContext operation keyID) w r
      w' → AuditedOnce uuid operation keyID user.id w w' r) ↔
      cfg.grants user operation = true ∨ user.id = "" := by
  have hsettles := authorize_settles (worldSem_returns uuid kms) uuid cfg ctx reqContext operation
    keyID
  constructor
  · intro h
    by_contra hcond
    obtain ⟨hdenied, hname⟩ := not_or.mp hcond
    obtain ⟨r, w', hrun⟩ := hsettles.returns w
    obtain ⟨_, _, event, -, haudit, -, -, -, hidentity⟩ := h r w' hrun
    obtain ⟨_, _, event', -, haudit', -, -, -, hidentity'⟩ := authorize_audited hctx hrun
    rw [if_neg hdenied] at hidentity'
    -- there is one event only, and it has no name
    obtain rfl := List.singleton_inj.mp (List.append_cancel_left (haudit.symm.trans haudit'))
    exact hname (hidentity.symm.trans hidentity')
  · intro hcond r w' hrun
    have haudited := authorize_audited hctx hrun
    rcases hcond with hgrants | hname
    · rw [if_pos hgrants] at haudited
      exact haudited
    · rw [hname]
      rw [hname, ite_self] at haudited
      exact haudited


end Audit

/-- A read that the roles allow and the key does not is recorded under the reader's name. -/
theorem authorize_audited_iff_reader : ∃ r w',
    Act.Runs (worldSem googleUUID sampleKMS) ((sampleAuthCall .free).run googleUUID sampleRoles)
      (.init 0) r w' ∧
    AuditedOnce googleUUID authKeysRead sampleID "alice" (.init 0) w' r := by
  obtain ⟨r, w', hrun, -⟩ := Prog.exists_runs sampleStep_sound
    ((sampleAuthCall .free).run googleUUID sampleRoles) (.init 0) (fun _ => true)
    (by decide +kernel)
  have haudited := (authorize_audited_iff googleUUID sampleKMS sampleRoles (sampleReader "alice")
    ⟨"alice", ["reader"]⟩ (some ⟨"alice", .free⟩) authKeysRead sampleID (.init 0) rfl).mpr
    (.inl (by decide +kernel))
  exact ⟨r, w', hrun, haudited r w' hrun⟩

/-- **A denial by role is recorded without a name**: a reader who asks to rotate a key. -/
theorem authorize_denial_unnamed : ∃ ctx user r w', ctx.user = some user ∧ user.id = "alice" ∧
    Act.Runs (worldSem googleUUID sampleKMS) (authorize googleUUID sampleRoles ctx
      (some ⟨"alice", .free⟩) authKeysRotate sampleID) (.init 0) r w' ∧
    ¬ AuditedOnce googleUUID authKeysRotate sampleID user.id (.init 0) w' r := by
  obtain ⟨r, w', hrun, hcheck⟩ := Prog.exists_runs sampleStep_sound
    (authorize googleUUID sampleRoles (sampleReader "alice") (some ⟨"alice", .free⟩) authKeysRotate
      sampleID) (.init 0) (fun out => out.2.audit.all (·.clientIdentity = "")) (by decide +kernel)
  refine ⟨sampleReader "alice", ⟨"alice", ["reader"]⟩, r, w', rfl, rfl, hrun, ?_⟩
  rintro ⟨_, _, event, -, haudit, -, -, -, hidentity⟩
  have hunnamed := List.all_eq_true.mp hcheck event (by simp [haudit])
  rw [of_decide_eq_true hunnamed] at hidentity
  exact absurd hidentity (by decide)

end Polykey
