/-
# A request on its way through the server

`server.go` puts the authentication interceptor and the validation interceptor in front of the
handlers.  What the first one leaves is the `CallContext`; `serve` is the rest of the way: the check
of the request, the handler, and `sanitizeError` for the error of either.

The first result is about what a denial tells.  The authorizer knows why it denies, and the reasons
are as many as the checks.  All of them become one status, so that whoever is not let near a key
gets the same answer as for a key that is not there (`unauthorized_indistinguishable`).
-/
import Polykey.Errors.Classifier
import Polykey.Grpc.Access
import Polykey.Grpc.Validation

namespace Polykey

open Lib

/-! ## 1. The way of a request -/

namespace PolykeyService

/-- The handler of a request; what it returns does not matter here.  A turn of the rotation worker
has none. -/
def handle (p : PolykeyService) (ctx : CallContext) : ServiceCall → Svc Unit
  | .createKey req => discard (p.createKey ctx req)
  | .batchCreateKeys req => discard (p.batchCreateKeys ctx req)
  | .getKey req => discard (p.getKey ctx req)
  | .batchGetKeys req => discard (p.batchGetKeys ctx req)
  | .getKeyMetadata req => discard (p.getKeyMetadata ctx req)
  | .batchGetKeyMetadata req => discard (p.batchGetKeyMetadata ctx req)
  | .listKeys req => discard (p.listKeys ctx req)
  | .rotateKey req => discard (p.rotateKey ctx req)
  | .batchRotateKeys req => discard (p.batchRotateKeys ctx req)
  | .revokeKey req => discard (p.revokeKey ctx req)
  | .batchRevokeKeys req => discard (p.batchRevokeKeys ctx req)
  | .updateKeyMetadata req => discard (p.updateKeyMetadata ctx req)
  | .batchUpdateKeyMetadata req => discard (p.batchUpdateKeyMetadata ctx req)
  | .worker => pure ()

/-- A request behind the authentication interceptor. -/
def serve (p : PolykeyService) (rv : RequestValidator) (ctx : CallContext) (inc : IncomingRequest) :
    Act Effect Status Unit :=
  match unaryValidationInterceptor rv inc with
  | .error e => Act.throw (sanitizeError e)
  | .ok call => Act.rethrow sanitizeError (p.handle ctx call)

end PolykeyService

section Runs

variable {σ : Type} {sem : Sem Effect σ} {w w' : σ} {α : Type}

theorem runs_discard {a : Svc α} {r : Except Err Unit} :
    Act.Runs sem (discard a) w r w' ↔ ∃ x, Act.Runs sem a w x w' ∧ r = x.map fun _ => () := by
  rw [discard, Act.runs_bind]
  constructor
  · rintro (⟨x, w₁, hrun, rfl, rfl⟩ | ⟨e, rfl, hrun⟩)
    · exact ⟨_, hrun, rfl⟩
    · exact ⟨_, hrun, rfl⟩
  · rintro ⟨x, hrun, rfl⟩
    cases x with
    | ok a => exact .inl ⟨a, w', hrun, rfl, rfl⟩
    | error e => exact .inr ⟨e, rfl, hrun⟩

end Runs

/-! ## 2. The requests that name one key -/

/-- What `execWithAuth` is called with. -/
structure KeyRequest where
  keyId : String
  operation : String
  requesterContext : Option RequesterContext

def ServiceCall.keyRequest : ServiceCall → Option KeyRequest
  | .getKey req => some ⟨req.keyId, authKeysRead, req.requesterContext⟩
  | .getKeyMetadata req => some ⟨req.keyId, authKeysRead, req.requesterContext⟩
  | .rotateKey req => some ⟨req.item.keyId, authKeysRotate, req.requesterContext⟩
  | .revokeKey req => some ⟨req.keyId, authKeysRevoke, req.requesterContext⟩
  | .updateKeyMetadata req => some ⟨req.item.keyId, authKeysUpdate, req.requesterContext⟩
  | _ => none

section KeyRequests

variable {p : PolykeyService} {rv : RequestValidator} {ctx : CallContext} {call : ServiceCall}
  {inc : IncomingRequest} {kr : KeyRequest}

/-- Their handlers are `execWithAuth`. -/
theorem handle_keyRequest (p : PolykeyService) (ctx : CallContext)
    (h : call.keyRequest = some kr) : kr.operation ∈ resourceOperations ∧
      ∃ (α : Type) (fn : Svc α), p.handle ctx call =
        discard (p.execWithAuth ctx kr.operation kr.keyId kr.requesterContext fn) := by
  cases call with
  | getKey _ | getKeyMetadata _ | rotateKey _ | revokeKey _ | updateKeyMetadata _ =>
    cases h
    exact ⟨by simp [resourceOperations], _, _, rfl⟩
  | _ => cases h

/-- The interceptor hands them on as they are. -/
theorem interceptor_keyRequest (h : inc.call.keyRequest = some kr)
    (hcheck : unaryValidationInterceptor rv inc = .ok call) : call = inc.call := by
  obtain ⟨c, size, filters⟩ := inc
  cases c with
  | getKey _ | getKeyMetadata _ | rotateKey _ | revokeKey _ | updateKeyMetadata _ =>
    obtain ⟨_, -, rfl⟩ := map_eq_ok.mp hcheck
    rfl
  | _ => cases h

end KeyRequests

/-! ## 3. Denials

Two stores are compared, one without the key and one with a row that does not grant it. In both
the authorizer fails at the decision about the key, for different reasons, and `sanitizeError`
leaves nothing of the reason. -/

section Denials

variable {p : PolykeyService} {kms : KMS} {ctx : CallContext} {user : AuthenticatedUser}
  {reqContext : Option RequesterContext} {operation keyIDStr : String} {k : KeyID} {w w' : World}
  {α : Type}

/-- The handler of a request that is denied fails with a denial, and the table stays. -/
theorem execWithAuth_refused (kms : KMS) (fn : Svc α) (hctx : ctx.user = some user)
    (hkey : keyIDFromString p.keyService.uuid keyIDStr = .ok k)
    (hdenied : (checkAuthorizationOn w.table p.authorization user operation k reqContext).1 = false)
    (hmiss : ∀ now, w.clock ≤ now →
      w.policyCache.get now (policyKey p.keyService.uuid user.id operation k) = none) :
    (∃ r w', Act.Runs (worldSem p.keyService.uuid kms)
      (p.execWithAuth ctx operation keyIDStr reqContext fn) w r w') ∧
    ∀ r w', Act.Runs (worldSem p.keyService.uuid kms)
      (p.execWithAuth ctx operation keyIDStr reqContext fn) w r w' →
        (∃ reason, r = .error (.detail .errAuthorization reason)) ∧ w'.table = w.table := by
  have hstart : p.execWithAuth ctx operation keyIDStr reqContext fn =
      p.authorized ctx operation reqContext k fn := by
    unfold PolykeyService.execWithAuth
    rw [hkey]
    rfl
  rw [hstart]
  have hsettles := authorize_settles (worldSem_returns p.keyService.uuid kms) p.keyService.uuid
    p.authorization ctx reqContext operation k
  have hrefuse : ∀ d : Bool × String, d.1 = false → ∀ w₁ r w', Act.Runs
      (worldSem p.keyService.uuid kms) (if d.1 then fn else
        Act.throw (.detail .errAuthorization d.2)) w₁ r w' ↔
      r = .error (.detail .errAuthorization d.2) ∧ w' = w₁ := by
    intro d hd w₁ r w'
    simp [hd]
  constructor
  · obtain ⟨r, w₁, hauth⟩ := hsettles.returns w
    obtain ⟨d, rfl⟩ := hsettles.succeeds _ _ _ hauth
    have hd := authorize_denied hctx hdenied hmiss hauth
    exact ⟨_, w₁, Act.runs_bind.mpr (.inl ⟨d, w₁, hauth, (hrefuse d hd _ _ _).mpr ⟨rfl, rfl⟩⟩)⟩
  · intro r w' hrun
    rcases Act.runs_bind.mp hrun with ⟨d, w₁, hauth, hrest⟩ | ⟨e, rfl, hauth⟩
    · have hd := authorize_denied hctx hdenied hmiss hauth
      obtain ⟨rfl, rfl⟩ := (hrefuse d hd _ _ _).mp hrest
      exact ⟨⟨d.2, rfl⟩, (runs_authorize hauth).2.1⟩
    · obtain ⟨d, hd⟩ := hsettles.succeeds _ _ _ hauth
      cases hd

/-- The row does not grant the user the key: it has no metadata, or the user is not among its
contexts, or the user's tier is too low for its storage profile. -/
def Ungranted (user : AuthenticatedUser) (reqContext : Option RequesterContext) (r : Row) : Prop :=
  ∀ m, r.metadata = some m → user.id ∉ m.authorizedContexts ∨
    ∃ e, validateTierForProfile (fromProtoTier (reqContext.elim (.other 0) (·.clientTier)))
      m.storageType = .error e

/-- No key, or no row that grants it. -/
theorem checkAuthorizationOn_ungranted {t : Table} {cfg : AuthorizationConfig}
    (hadmin : cfg.isAdmin user = false) (hzero : k ≠ .nil) (hop : operation ∈ resourceOperations)
    (hrow : ∀ r, t.latest k = some r → Ungranted user reqContext r) :
    (checkAuthorizationOn t cfg user operation k reqContext).1 = false := by
  have hisZero : k.isZero = false := decide_eq_false hzero
  have hcheck : checkAuthorizationOn t cfg user operation k reqContext =
      checkKey user reqContext (PSQLAdapter.getKey t k) := by
    simp [checkAuthorizationOn, checkAuthorization, hadmin, hisZero, hop]
  rw [hcheck]
  cases hlatest : t.latest k with
  | none =>
    have hget : PSQLAdapter.getKey t k = .error (.of .psqlErrKeyNotFound) := by
      simp [PSQLAdapter.getKey, hlatest]
    rw [hget]
    rfl
  | some r =>
    have hget : PSQLAdapter.getKey t k = .ok r.scan := by simp [PSQLAdapter.getKey, hlatest]
    rw [hget]
    cases hm : r.metadata with
    | none => simp [checkKey, Row.scan, hm]
    | some m =>
      rcases hrow r hlatest m hm with hnot | ⟨e, he⟩
      · simp [checkKey, Row.scan, hm, hnot]
      · cases reqContext with
        | none =>
          by_cases hmem : user.id ∈ m.authorizedContexts
          · simp [checkKey, Row.scan, hm, hmem]
          · simp [checkKey, Row.scan, hm, hmem]
        | some rc =>
          have htier : validateTierForProfile (fromProtoTier rc.clientTier) m.storageType =
            .error e := he
          by_cases hmem : user.id ∈ m.authorizedContexts
          · simp [checkKey, Row.scan, hm, hmem, htier]
          · simp [checkKey, Row.scan, hm, hmem]

/-- What the client gets for a key that the table does not grant. -/
theorem serve_denied (kms : KMS) (rv : RequestValidator) {inc : IncomingRequest} {kr : KeyRequest}
    (hkr : inc.call.keyRequest = some kr) (hctx : ctx.user = some user)
    (hadmin : p.authorization.isAdmin user = false)
    (hkey : keyIDFromString p.keyService.uuid kr.keyId = .ok k) (hzero : k ≠ .nil)
    (hrow : ∀ r, w.table.latest k = some r → Ungranted user kr.requesterContext r)
    (hmiss : ∀ now, w.clock ≤ now →
      w.policyCache.get now (policyKey p.keyService.uuid user.id kr.operation k) = none) :
    (∃ r w', Act.Runs (worldSem p.keyService.uuid kms) (p.serve rv ctx inc) w r w') ∧
    ∀ r w', Act.Runs (worldSem p.keyService.uuid kms) (p.serve rv ctx inc) w r w' →
      r = .error (match unaryValidationInterceptor rv inc with
        | .error e => sanitizeError e
        | .ok _ => ⟨.permissionDenied, "Permission denied"⟩) ∧ w'.table = w.table := by
  unfold PolykeyService.serve
  cases hcheck : unaryValidationInterceptor rv inc with
  | error e =>
    refine ⟨⟨_, w, rfl, rfl⟩, ?_⟩
    rintro r w' ⟨rfl, rfl⟩
    exact ⟨rfl, rfl⟩
  | ok call =>
    obtain rfl := interceptor_keyRequest hkr hcheck
    obtain ⟨hop, α, fn, hhandle⟩ := handle_keyRequest p ctx hkr
    simp only [hhandle]
    obtain ⟨⟨r, w', hrun⟩, hall⟩ := execWithAuth_refused kms fn hctx hkey
      (checkAuthorizationOn_ungranted hadmin hzero hop hrow) hmiss
    constructor
    · exact ⟨_, w', Act.runs_rethrow.mpr ⟨_, runs_discard.mpr ⟨r, hrun, rfl⟩, rfl⟩⟩
    · intro r w' hrun
      obtain ⟨x, hdiscard, rfl⟩ := Act.runs_rethrow.mp hrun
      obtain ⟨y, hauth, rfl⟩ := runs_discard.mp hdiscard
      obtain ⟨⟨reason, rfl⟩, htable⟩ := hall y w' hauth
      exact ⟨rfl, htable⟩

end Denials

/-- **Whoever may not have a key cannot tell whether it exists.** A user who is no admin asks for
the key `k` in two stores: in one it is not there, in the other it is and its row does not grant
it.  Both requests come back, with the same status, and neither changes its store. -/
theorem unauthorized_indistinguishable {p : PolykeyService} {rv : RequestValidator} {kms : KMS}
    {ctx : CallContext} {user : AuthenticatedUser} {inc : IncomingRequest} {kr : KeyRequest}
    {k : KeyID} {w₁ w₂ : World} {r : Row} (hctx : ctx.user = some user)
    (hadmin : p.authorization.isAdmin user = false) (hkr : inc.call.keyRequest = some kr)
    (hkey : keyIDFromString p.keyService.uuid kr.keyId = .ok k) (hzero : k ≠ .nil)
    (habsent : w₁.table.latest k = none) (hpresent : w₂.table.latest k = some r)
    (hrow : Ungranted user kr.requesterContext r)
    (hmiss : ∀ w ∈ [w₁, w₂], ∀ now, w.clock ≤ now →
      w.policyCache.get now (policyKey p.keyService.uuid user.id kr.operation k) = none) :
    (∃ out w', Act.Runs (worldSem p.keyService.uuid kms) (p.serve rv ctx inc) w₁ out w') ∧
    (∃ out w', Act.Runs (worldSem p.keyService.uuid kms) (p.serve rv ctx inc) w₂ out w') ∧
    ∀ out₁ out₂ w₁' w₂',
      Act.Runs (worldSem p.keyService.uuid kms) (p.serve rv ctx inc) w₁ out₁ w₁' →
      Act.Runs (worldSem p.keyService.uuid kms) (p.serve rv ctx inc) w₂ out₂ w₂' →
        (∃ status, out₁ = .error status ∧ out₂ = .error status) ∧
          w₁'.table = w₁.table ∧ w₂'.table = w₂.table := by
  have hnone : ∀ r, w₁.table.latest k = some r → Ungranted user kr.requesterContext r := by
    intro r hr
    rw [habsent] at hr
    cases hr
  have hsome : ∀ r, w₂.table.latest k = some r → Ungranted user kr.requesterContext r := by
    intro r' hr'
    rw [hpresent] at hr'
    cases hr'
    exact hrow
  obtain ⟨hrun₁, hall₁⟩ := serve_denied kms rv hkr hctx hadmin hkey hzero hnone
    (hmiss w₁ (by simp))
  obtain ⟨hrun₂, hall₂⟩ := serve_denied kms rv hkr hctx hadmin hkey hzero hsome
    (hmiss w₂ (by simp))
  refine ⟨hrun₁, hrun₂, fun out₁ out₂ w₁' w₂' h₁ h₂ => ?_⟩
  obtain ⟨rfl, htable₁⟩ := hall₁ out₁ w₁' h₁
  obtain ⟨rfl, htable₂⟩ := hall₂ out₂ w₂' h₂
  exact ⟨⟨_, rfl, rfl⟩, htable₁, htable₂⟩

/-- Bob wants a key revoked. -/
def bobRevokes : IncomingRequest :=
  sampleIncoming (.revokeKey ⟨sampleText, ownContext (bob ["staff"])⟩)

/-- Bob asks for Alice's key, and for the same key where nothing is stored. -/
theorem unauthorized_indistinguishable_bob :
    staffService.authorization.isAdmin (bob ["staff"]) = false ∧ ∀ out₁ out₂ w₁' w₂',
      Act.Runs (worldSem googleUUID sampleKMS) (staffService.serve sampleValidator
        (bobContext ["staff"]) bobRevokes) (.init 0) out₁ w₁' →
      Act.Runs (worldSem googleUUID sampleKMS) (staffService.serve sampleValidator
        (bobContext ["staff"]) bobRevokes) aliceKey out₂ w₂' →
        (∃ status, out₁ = .error status ∧ out₂ = .error status) ∧
          w₁'.table = (World.init 0).table ∧ w₂'.table = aliceKey.table := by
  obtain ⟨n, hn⟩ := Table.exists_latest aliceKey_rows
  obtain ⟨hmem, hid, -⟩ := Table.latest_eq_some.mp hn
  have hadmin : staffService.authorization.isAdmin (bob ["staff"]) = false := by decide +kernel
  have hkr : bobRevokes.call.keyRequest =
    some ⟨sampleText, authKeysRevoke, ownContext (bob ["staff"])⟩ := rfl
  have hkey : keyIDFromString staffService.keyService.uuid sampleText = .ok sampleID :=
    keyIDFromString_string _ _
  have habsent : (World.init 0).table.latest sampleID = none := rfl
  have hrow : Ungranted (bob ["staff"]) (ownContext (bob ["staff"])) n := fun m hm =>
    .inl (aliceKey_contexts n (Table.mem_versionsOf.mpr ⟨hmem, hid⟩) m hm)
  have hmiss : ∀ w ∈ [World.init 0, aliceKey], ∀ now, w.clock ≤ now → w.policyCache.get now
      (policyKey staffService.keyService.uuid (bob ["staff"]).id authKeysRevoke sampleID) =
        none := by
    intro w hw now _
    simp only [List.mem_cons, List.not_mem_nil, or_false] at hw
    rcases hw with rfl | rfl
    · rfl
    · simp [Cache.get, aliceKey_policyCache]
  exact ⟨hadmin,
    (unauthorized_indistinguishable rfl hadmin hkr hkey (by decide) habsent hn hrow hmiss).2.2⟩

end Polykey
