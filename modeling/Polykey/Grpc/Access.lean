/-
# Who can reach a key

The single-key handlers look at the contexts of the key they are called for.  The batch handlers
and `ListKeys` ask the authorizer about the zero id, for which nothing is looked at but the user's
roles, and the service does not look again.

So what a user can read or change does not depend on the contexts of a key at all
(`access_by_roles`): it is the user's roles, and the certificate where one is asked for, that
decide.  A key that `GetKey` refuses to hand out is handed out by `BatchGetKeys`
(`batch_reaches_denied_key`).
-/
import Polykey.Grpc.PolykeyService
import Polykey.Pipelines.KeyRotation
import Polykey.Service.Rotation

namespace Polykey

open Lib

/-! ## 1. Reading and changing a key -/

/-- A piece of a response: key material or metadata. -/
inductive Shown
  | material (encryptedKeyData : Bytes)
  | metadata (m : KeyMetadata)

/-- It comes from a row of the key. -/
def Shown.Of (t : Table) (k : KeyID) : Shown → Prop
  | material data => ∃ r ∈ t.versionsOf k, r.encryptedDEK = data
  | metadata m => ∃ r ∈ t.versionsOf k, r.metadata = some m

def GetKeyResponse.shown (resp : GetKeyResponse) : List Shown :=
  .material resp.keyMaterial.encryptedKeyData :: resp.metadata.toList.map .metadata

def GetKeyMetadataResponse.shown (resp : GetKeyMetadataResponse) : List Shown :=
  resp.metadata.toList.map .metadata

def BatchResponse.shown {α : Type} (f : α → List Shown) (resp : BatchResponse α) : List Shown :=
  resp.results.flatMap fun item => (item.result.toOption.map f).getD []

def ListKeysResponse.shown (resp : ListKeysResponse) : List Shown :=
  resp.keys.flatMap fun m => m.toList.map .metadata

/-- The reading RPCs. -/
inductive ReadRpc
  | getKey (req : GetKeyRequest)
  | getKeyMetadata (req : GetKeyMetadataRequest)
  | batchGetKeys (req : BatchGetRequest)
  | batchGetKeyMetadata (req : BatchGetRequest)
  | listKeys (req : ListKeysRequest)

/-- What such an RPC returns. -/
def ReadRpc.run (p : PolykeyService) (ctx : CallContext) : ReadRpc → Svc (List Shown)
  | getKey req => do
    let resp ← p.getKey ctx req
    pure resp.shown
  | getKeyMetadata req => do
    let resp ← p.getKeyMetadata ctx req
    pure resp.shown
  | batchGetKeys req => do
    let resp ← p.batchGetKeys ctx req
    pure (resp.shown GetKeyResponse.shown)
  | batchGetKeyMetadata req => do
    let resp ← p.batchGetKeyMetadata ctx req
    pure (resp.shown GetKeyMetadataResponse.shown)
  | listKeys req => do
    let resp ← p.listKeys ctx req
    pure resp.shown

/-- The writing RPCs on stored keys. -/
inductive WriteRpc
  | rotateKey (req : RotateKeyRequest)
  | revokeKey (req : RevokeKeyRequest)
  | updateKeyMetadata (req : UpdateKeyMetadataRequest)
  | batchRotateKeys (req : BatchRotateKeysRequest)
  | batchRevokeKeys (req : BatchRevokeKeysRequest)
  | batchUpdateKeyMetadata (req : BatchUpdateKeyMetadataRequest)

/-- An action whose result does not matter here. -/
def discard {α : Type} (p : Svc α) : Svc Unit := do
  let _ ← p
  pure ()

/-- A call of `RotateKey` up to `Enqueue`, and then the worker's work on its request. -/
def KeyService.rotateServed (s : KeyService) (req : RotateKeyRequest) : Svc Key := do
  let prepared ← s.rotationRequest req.item
  let accepted ← Act.call (I := Effect) (.enqueue prepared.2)
  if accepted then pipelineRotation prepared.2
  else Act.throw (.new ("rpc error: code = ResourceExhausted desc = " ++
    "key rotation queue is full, please try again later"))

/-- What such an RPC does to the world: the handler's own calls and, for a single rotation, those
of the worker that serves it. -/
def WriteRpc.actions (p : PolykeyService) (ctx : CallContext) : WriteRpc → List (Svc Unit)
  | rotateKey req =>
    [discard (p.rotateKey ctx req),
      discard (p.execWithAuth ctx authKeysRotate req.item.keyId req.requesterContext
        (p.keyService.rotateServed req))]
  | revokeKey req => [discard (p.revokeKey ctx req)]
  | updateKeyMetadata req => [discard (p.updateKeyMetadata ctx req)]
  | batchRotateKeys req => [discard (p.batchRotateKeys ctx req)]
  | batchRevokeKeys req => [discard (p.batchRevokeKeys ctx req)]
  | batchUpdateKeyMetadata req => [discard (p.batchUpdateKeyMetadata ctx req)]

section Access

variable (p : PolykeyService) (kms : KMS) (ctx : CallContext) (w : World) (k : KeyID)

/-- The RPC can return something of the key. -/
def ReadRpc.Discloses (rpc : ReadRpc) : Prop :=
  ∃ shown w', Act.Runs (worldSem p.keyService.uuid kms) (rpc.run p ctx) w (.ok shown) w' ∧
    ∃ x ∈ shown, x.Of w.table k

/-- The RPC can change a row of the key. -/
def WriteRpc.Changes (rpc : WriteRpc) : Prop :=
  ∃ a ∈ rpc.actions p ctx, ∃ r w', Act.Runs (worldSem p.keyService.uuid kms) a w r w' ∧
    w'.table.versionsOf k ≠ w.table.versionsOf k

/-- No RPC of the caller returns anything of the key or changes any row of it. -/
def OutOfReach : Prop :=
  (∀ rpc : ReadRpc, ¬ rpc.Discloses p kms ctx w k) ∧
    ∀ rpc : WriteRpc, ¬ rpc.Changes p kms ctx w k

end Access

/-- Whoever asks, a rotation of the key can succeed: its provider and its pool are there, the KMS
can encrypt, and the next version fits. -/
def Rotatable (s : KeyService) (kms : KMS) (t : Table) (k : KeyID) : Prop :=
  ∃ n, t.latest k = some n ∧ n.version < int4Max ∧
    (∃ m, n.metadata = some m ∧ m.version = n.version) ∧
    ∃ provider size dek encrypted, s.getKMSProvider n.scan.storageType = .ok provider ∧
      dekPool n.scan.keyType = .ok size ∧ List.length dek = size ∧
      kms.encrypts provider dek n.scan (.ok encrypted) ∧ encrypted ≠ []

/-! ## 2. What the handlers leave alone

"Leaves the rows of a key alone" is a property of actions that is closed under sequencing, so it
is enough to have it for the parts. What a caller may not do is carried as a condition on what
the authorizer returns. -/

section Leaves

variable {uuid : UUIDPkg} {cfg : AuthorizationConfig} {s : KeyService} {p : PolykeyService}
  {kms : KMS} {ctx : CallContext} {t : Table} {k : KeyID} {reqContext : Option RequesterContext}
  {operation : String} {keyID : KeyID} {α : Type}

theorem leaves_auditDecision {identity : String} {d : Bool × String} :
    Leaves uuid kms t k (auditDecision uuid identity operation keyID d) fun d' => d' = d :=
  (Leaves.call rfl).bind fun _ _ => Leaves.pure rfl

theorem leaves_cachedDecision {user : AuthenticatedUser} :
    Leaves uuid kms t k (cachedDecision uuid cfg user reqContext operation keyID)
      fun _ => True := by
  have hcheck : Leaves uuid kms t k
      (checkAuthorization getKeyAnswer cfg user operation keyID reqContext) fun _ => True := by
    unfold checkAuthorization
    split
    · exact Leaves.pure trivial
    split
    · exact Leaves.pure trivial
    split
    · have hget : Leaves uuid kms t k (repo (.getKey keyID)) fun _ => True :=
        Leaves.untouched rfl rfl List.not_mem_nil
      exact hget.attempt.bind fun _ _ => Leaves.pure trivial
    · exact Leaves.pure trivial
  refine (Leaves.call rfl).bind fun cached _ => ?_
  split
  · exact Leaves.pure trivial
  · exact Leaves.pure trivial
  · refine hcheck.bind fun d _ => ?_
    split
    · exact (Leaves.call rfl).bind fun _ _ => Leaves.pure trivial
    · exact Leaves.pure trivial

/-- `Authorize` changes no row, and lets nobody pass whom the gates do not let pass. -/
theorem leaves_authorize :
    Leaves uuid kms t k (authorize uuid cfg ctx reqContext operation keyID)
      fun d => d.1 = true → ∃ user, Admits cfg ctx reqContext operation user := by
  have hdenied : ∀ identity reason,
      Leaves uuid kms t k (auditDecision uuid identity operation keyID (false, reason))
        fun d => d.1 = true → ∃ user, Admits cfg ctx reqContext operation user := by
    intro identity reason
    refine leaves_auditDecision.weaken ?_
    rintro d rfl hd
    cases hd
  unfold authorize
  split
  · exact hdenied _ _
  rename_i user hauth
  split
  · exact hdenied _ _
  rename_i hreq
  split
  · exact hdenied _ _
  rename_i hident
  refine leaves_cachedDecision.bind fun d _ => leaves_auditDecision.weaken ?_
  exact fun _ _ _ => ⟨user, hauth, hreq, hident⟩

/-- A handler leaves the rows alone if the call behind it does, for whoever is let pass. -/
theorem leaves_authorized {fn : Svc α}
    (h : ∀ user, Admits p.authorization ctx reqContext operation user →
      Leaves p.keyService.uuid kms t k fn fun _ => True) :
    Leaves p.keyService.uuid kms t k (p.authorized ctx operation reqContext keyID fn)
      fun _ => True := by
  refine leaves_authorize.bind fun d hd => ?_
  split
  · obtain ⟨user, hadmits⟩ := hd ‹_›
    exact h user hadmits
  · exact Leaves.throw

theorem leaves_execWithAuth {keyIDStr : String} {fn : Svc α}
    (h : ∀ user, Admits p.authorization ctx reqContext operation user →
      Leaves p.keyService.uuid kms t k fn fun _ => True) :
    Leaves p.keyService.uuid kms t k (p.execWithAuth ctx operation keyIDStr reqContext fn)
      fun _ => True :=
  (Leaves.ofExcept (Q := fun _ => True) fun _ _ => trivial).bind fun _ _ => leaves_authorized h

theorem leaves_discard {a : Svc α} (h : Leaves uuid kms t k a fun _ => True) :
    Leaves uuid kms t k (discard a) fun _ => True :=
  h.bind fun _ _ => Leaves.pure trivial

/-! ### Rotations of a key that cannot be rotated -/

/-- What `GetKey` returns of `k` is its latest row. -/
theorem leaves_repo_getKey {id : KeyID} :
    Leaves uuid kms t k (repo (.getKey id)) fun key =>
      id = k → ∃ n, t.latest k = some n ∧ key = n.scan := by
  refine Leaves.repo rfl rfl fun w now r t' hchain hrows hans => ⟨?_, ?_⟩
  · exact hans.change.versionsOf List.not_mem_nil
  · rintro key rfl rfl
    obtain ⟨-, n, hn, rfl⟩ := answers_getKey hans
    refine ⟨n, ?_, rfl⟩
    simpa only [Table.latest, hrows] using hn

theorem leaves_randRead (n : Nat) :
    Leaves uuid kms t k (randRead n) fun dek => dek.length = n := by
  refine Leaves.tryCall rfl fun w r w' hop dek hdek => ?_
  obtain ⟨now, -, hlen, -⟩ := hop
  exact hlen dek hdek

theorem leaves_encryptDEK (provider : String) (dek : Bytes) (key : Key) :
    Leaves uuid kms t k (encryptDEK provider dek key) fun encrypted =>
      kms.encrypts provider dek key (.ok encrypted) := by
  refine Leaves.tryCall rfl fun w r w' hop encrypted hr => ?_
  obtain ⟨now, -, hencrypts, -⟩ := hop
  exact hr ▸ hencrypts

/-- What is known of a rotation when it comes to the repository. -/
def RotationOf (s : KeyService) (kms : KMS) (t : Table) (k : KeyID) (encrypted : Bytes) : Prop :=
  ∃ n provider size dek, t.latest k = some n ∧ s.getKMSProvider n.scan.storageType = .ok provider ∧
    dekPool n.scan.keyType = .ok size ∧ List.length dek = size ∧
    kms.encrypts provider dek n.scan (.ok encrypted)

/-- The repository rotates a key only if it can be rotated. -/
theorem leaves_repo_rotateKey (hnot : ¬ Rotatable s kms t k) {id : KeyID} {encrypted : Bytes}
    (h : id = k → RotationOf s kms t k encrypted) :
    Leaves s.uuid kms t k (repo (.rotateKey id encrypted)) fun _ => True := by
  by_cases hid : id = k
  · subst hid
    refine Leaves.repo rfl rfl fun w now r t' hchain hrows hans => ⟨?_, fun _ _ => trivial⟩
    rcases hans with hexec | ⟨-, rfl⟩
    · cases r with
      | error e => rw [PSQLAdapter.exec_error hexec]
      | ok key =>
        obtain ⟨n, provider, size, dek, hn, hprovider, hsize, hdek, hencrypts⟩ := h rfl
        obtain ⟨old, m, hrot, -⟩ := PSQLAdapter.rotateKey_eq_ok.mp hexec
        have hold : t.latest id = some old := by
          simpa only [Table.latest, hrows] using hrot.latest
        obtain rfl : n = old := Option.some.inj (hn.symm.trans hold)
        have hv := hchain.rotation_version hrot
        refine absurd ?_ hnot
        exact ⟨n, hn, hv ▸ hrot.version_lt, ⟨m, hrot.metadata, hv⟩, provider, size, dek, encrypted,
          hprovider, hsize, hdek, hencrypts, hrot.dek_ne⟩
    · rfl
  · refine Leaves.untouched rfl rfl fun hmem => hid ?_
    exact (List.mem_singleton.mp hmem).symm

theorem leaves_processRotation (hnot : ¬ Rotatable s kms t k) (id : KeyID) :
    Leaves s.uuid kms t k (s.processRotation id) fun _ => True := by
  refine leaves_repo_getKey.mapError.bind fun currentKey hcurrent => ?_
  refine (Leaves.ofExcept fun _ h => h).bind fun provider hprovider => ?_
  refine (Leaves.ofExcept fun _ h => h).bind fun size hsize => ?_
  refine (leaves_randRead size).mapError.bind fun dek hdek => ?_
  refine (leaves_encryptDEK provider dek currentKey).mapError.bind fun encrypted hencrypts => ?_
  refine Leaves.bind (Leaves.mapError (leaves_repo_rotateKey hnot fun hid => ?_)) fun _ _ =>
    Leaves.pure trivial
  obtain ⟨n, hn, rfl⟩ := hcurrent hid
  exact ⟨n, provider, size, dek, hn, hprovider, hsize, hdek, hencrypts⟩

/-- A worker's rotation, for a request made from the latest row. -/
theorem leaves_pipelineRotation (hnot : ¬ Rotatable s kms t k) {req : KeyRotationRequest}
    (h : req.keyID = k → ∃ n, t.latest k = some n ∧
      s.getKMSProvider n.scan.storageType = .ok req.kmsProvider ∧
      dekPool n.scan.keyType = .ok req.dekPool) :
    Leaves s.uuid kms t k (KeyService.pipelineRotation req) fun _ => True := by
  refine leaves_repo_getKey.mapError.bind fun currentKey hcurrent => ?_
  refine (leaves_randRead _).mapError.bind fun dek hdek => ?_
  refine (leaves_encryptDEK _ dek currentKey).mapError.bind fun encrypted hencrypts => ?_
  refine Leaves.mapError (leaves_repo_rotateKey hnot fun hid => ?_)
  obtain ⟨n, hn, hprovider, hsize⟩ := h hid
  obtain ⟨n', hn', rfl⟩ := hcurrent hid
  obtain rfl : n = n' := Option.some.inj (hn.symm.trans hn')
  exact ⟨n, _, _, dek, hn, hprovider, hsize, hdek, hencrypts⟩

theorem leaves_rotationRequest (item : RotateKeyItem) :
    Leaves s.uuid kms t k (s.rotationRequest item) fun prepared =>
      prepared.2.keyID = k → ∃ n, t.latest k = some n ∧
        s.getKMSProvider n.scan.storageType = .ok prepared.2.kmsProvider ∧
        dekPool n.scan.keyType = .ok prepared.2.dekPool := by
  refine (Leaves.ofExcept (Q := fun _ => True) fun _ _ => trivial).bind fun id _ => ?_
  refine leaves_repo_getKey.mapError.bind fun currentKey hcurrent => ?_
  refine (Leaves.ofExcept fun _ h => h).bind fun provider hprovider => ?_
  refine (Leaves.ofExcept fun _ h => h).bind fun size hsize => Leaves.pure fun hid => ?_
  obtain ⟨n, hn, rfl⟩ := hcurrent hid
  exact ⟨n, hn, hprovider, hsize⟩

theorem leaves_rotateServed (hnot : ¬ Rotatable s kms t k) (req : RotateKeyRequest) :
    Leaves s.uuid kms t k (s.rotateServed req) fun _ => True := by
  refine (leaves_rotationRequest req.item).bind fun prepared hprepared => ?_
  refine (Leaves.call rfl).bind fun accepted _ => ?_
  split
  · exact leaves_pipelineRotation hnot hprepared
  · exact Leaves.throw

/-- The caller of a single rotation does not write. -/
theorem leaves_rotateKey (req : RotateKeyRequest) :
    Leaves s.uuid kms t k (s.rotateKey req) fun _ => True := by
  rw [rotateKey_eq]
  refine (leaves_rotationRequest req.item).bind fun prepared _ => ?_
  refine (Leaves.call rfl).bind fun accepted _ => ?_
  split
  · exact Leaves.throw
  refine (Leaves.call rfl).bind fun received _ => ?_
  unfold rotationReply
  split
  · exact Leaves.throw
  split
  · exact Leaves.throw
  · exact (Leaves.call rfl).bind fun _ _ => Leaves.pure trivial

theorem Leaves.processBatch {β : Type} {validate : α → Except Err Unit} {process : α → Svc β}
    (h : ∀ a, Leaves uuid kms t k (process a) fun _ => True) (as : List α) :
    Leaves uuid kms t k (Polykey.processBatch validate process as) fun _ => True :=
  (spec_processBatch (K := fun _ _ _ => True) (fun _ _ _ _ _ htrue => htrue)
    fun a _ => h a).conseq (fun _ htrue => htrue) fun _ _ _ => trivial

theorem leaves_batchRotateKeys (hnot : ¬ Rotatable s kms t k) (req : BatchRotateKeysRequest) :
    Leaves s.uuid kms t k (s.batchRotateKeys req) fun _ => True := by
  have hitem : ∀ item, Leaves s.uuid kms t k (s.rotateItem item) fun _ => True := by
    intro item
    refine (Leaves.ofExcept (Q := fun _ => True) fun _ _ => trivial).bind fun id _ => ?_
    refine (leaves_processRotation hnot id).bind fun _ _ => ?_
    exact (Leaves.call rfl).bind fun _ _ => Leaves.pure trivial
  unfold KeyService.batchRotateKeys
  split
  · exact Leaves.throw
  · refine (Leaves.processBatch hitem req.keys).bind fun _ _ => ?_
    exact (Leaves.call rfl).bind fun _ _ => Leaves.pure trivial

end Leaves

/-! ## 3. Out of reach

One direction of the result: without a role no handler gets past the gates, whatever is cached,
and what does not get past them neither returns nor changes anything of a key. A rotation may be
allowed where it cannot succeed. -/

/-- The roles of the user allow the operation, and so does the certificate. -/
def MayCall (p : PolykeyService) (ctx : CallContext) (user : AuthenticatedUser)
    (operation : String) : Prop :=
  p.authorization.grants user operation = true ∧
    p.authorization.checkIdentityMatch ctx user = .ok ()

/-- The user may neither read nor list, revoke or update keys, and may not rotate keys if this
one can be rotated. -/
def NoRole (p : PolykeyService) (kms : KMS) (ctx : CallContext) (user : AuthenticatedUser)
    (t : Table) (k : KeyID) : Prop :=
  (∀ operation ∈ [authKeysRead, authKeysList, authKeysRevoke, authKeysUpdate],
      ¬ MayCall p ctx user operation) ∧
    (MayCall p ctx user authKeysRotate → ¬ Rotatable p.keyService kms t k)

section Access

variable {p : PolykeyService} {kms : KMS} {ctx : CallContext} {user : AuthenticatedUser}
  {w w' : World} {k : KeyID} {reqContext : Option RequesterContext} {operation : String}
  {keyID : KeyID} {α : Type}

theorem Admits.mayCall (hctx : ctx.user = some user) {user' : AuthenticatedUser}
    (h : Admits p.authorization ctx reqContext operation user') : MayCall p ctx user operation := by
  obtain ⟨hctx', hgrants⟩ := h.granted
  obtain rfl : user = user' := Option.some.inj (hctx.symm.trans hctx')
  exact ⟨hgrants, h.identity⟩

/-- A handler that succeeds was allowed to. -/
theorem authorized_ok {fn : Svc α} {a : α}
    (h : Act.Runs (worldSem p.keyService.uuid kms)
      (p.authorized ctx operation reqContext keyID fn) w (.ok a) w') :
    ∃ user, Admits p.authorization ctx reqContext operation user := by
  obtain ⟨d, w₁, hauth, hrest⟩ := Act.runs_bind_ok.mp h
  split at hrest
  · rename_i hd
    obtain ⟨⟨hfalse, -⟩ | ⟨user, hadmits, -⟩, -, -⟩ := runs_authorize hauth
    · rw [hd] at hfalse
      cases hfalse
    · exact ⟨user, hadmits⟩
  · cases hrest.1

theorem execWithAuth_ok {keyIDStr : String} {fn : Svc α} {a : α}
    (h : Act.Runs (worldSem p.keyService.uuid kms)
      (p.execWithAuth ctx operation keyIDStr reqContext fn) w (.ok a) w') :
    ∃ user, Admits p.authorization ctx reqContext operation user := by
  obtain ⟨id, w₁, -, hrest⟩ := Act.runs_bind_ok.mp h
  exact authorized_ok hrest

/-- A reading RPC that succeeds was allowed to read or to list. -/
theorem ReadRpc.run_ok (hctx : ctx.user = some user) {rpc : ReadRpc} {shown : List Shown}
    (h : Act.Runs (worldSem p.keyService.uuid kms) (rpc.run p ctx) w (.ok shown) w') :
    MayCall p ctx user authKeysRead ∨ MayCall p ctx user authKeysList := by
  cases rpc with
  | getKey req | getKeyMetadata req =>
    obtain ⟨resp, w₁, hrun, -⟩ := Act.runs_bind_ok.mp h
    obtain ⟨_, hadmits⟩ := execWithAuth_ok hrun
    exact .inl (hadmits.mayCall hctx)
  | batchGetKeys req | batchGetKeyMetadata req =>
    obtain ⟨resp, w₁, hrun, -⟩ := Act.runs_bind_ok.mp h
    obtain ⟨_, hadmits⟩ := authorized_ok hrun
    exact .inl (hadmits.mayCall hctx)
  | listKeys req =>
    obtain ⟨resp, w₁, hrun, -⟩ := Act.runs_bind_ok.mp h
    obtain ⟨_, hadmits⟩ := authorized_ok hrun
    exact .inr (hadmits.mayCall hctx)

/-- **Nobody is let near a key that the table does not grant**, unless a decision is cached. -/
theorem authorize_denied (hctx : ctx.user = some user) {d : Bool × String}
    (hdenied : (checkAuthorizationOn w.table p.authorization user operation k reqContext).1 = false)
    (hmiss : ∀ now, w.clock ≤ now →
      w.policyCache.get now (policyKey p.keyService.uuid user.id operation k) = none)
    (hrun : Act.Runs (worldSem p.keyService.uuid kms)
      (authorize p.keyService.uuid p.authorization ctx reqContext operation k) w (.ok d) w') :
    d.1 = false := by
  obtain ⟨⟨hfalse, -⟩ | ⟨user', hadmits, hdecided⟩, -, -⟩ := runs_authorize hrun
  · exact hfalse
  · obtain rfl : user = user' := Option.some.inj (hctx.symm.trans hadmits.granted.1)
    cases hdecided with
    | denied reason _ => rfl
    | hit now hnow hget _ =>
      rw [hmiss now hnow] at hget
      cases hget
    | fresh now _ reason hcheck _ =>
      rw [hcheck] at hdenied
      cases hdenied

/-- **A single-key handler keeps to the contexts.**  As long as no decision is cached, it refuses
every user who is not an admin and not among the contexts of the key. -/
theorem execWithAuth_denied {keyIDStr : String} {fn : Svc α} {n : Row} {m : KeyMetadata} {a : α}
    (hctx : ctx.user = some user) (hadmin : p.authorization.isAdmin user = false)
    (hop : operation ∈ resourceOperations) (hn : w.table.latest k = some n)
    (hm : n.metadata = some m) (hnot : user.id ∉ m.authorizedContexts)
    (hkey : keyIDFromString p.keyService.uuid keyIDStr = .ok k) (hzero : k.isZero = false)
    (hmiss : ∀ now,
      w.policyCache.get now (policyKey p.keyService.uuid user.id operation k) = none) :
    ¬ Act.Runs (worldSem p.keyService.uuid kms)
      (p.execWithAuth ctx operation keyIDStr reqContext fn) w (.ok a) w' := by
  intro h
  have hdenied : (checkAuthorizationOn w.table p.authorization user operation k reqContext).1 =
      false := by
    have hget : PSQLAdapter.getKey w.table k = .ok n.scan := by
      simp [PSQLAdapter.getKey, hn]
    simp [checkAuthorizationOn, checkAuthorization, hadmin, hzero, hop, hget, checkKey, Row.scan,
      hm, hnot]
  obtain ⟨id, w₁, ⟨hid, rfl⟩, hrest⟩ := Act.runs_bind_ok.mp h
  obtain rfl : id = k := Except.ok.inj (hid.trans hkey)
  obtain ⟨d, w₂, hauth, hfn⟩ := Act.runs_bind_ok.mp hrest
  split at hfn
  · rename_i hd
    rw [authorize_denied hctx hdenied (fun now _ => hmiss now) hauth] at hd
    cases hd
  · cases hfn.1

/-- **Without a role, out of reach.** -/
theorem NoRole.outOfReach (h : NoRole p kms ctx user w.table k) (hctx : ctx.user = some user)
    (hchain : Chain p.keyService.uuid w.table) : OutOfReach p kms ctx w k := by
  obtain ⟨hno, hrotate⟩ := h
  have hdenied : ∀ operation ∈ [authKeysRead, authKeysList, authKeysRevoke, authKeysUpdate],
      ∀ {α : Type} {reqContext : Option RequesterContext} {fn : Svc α} (user' : AuthenticatedUser),
        Admits p.authorization ctx reqContext operation user' →
          Leaves p.keyService.uuid kms w.table k fn fun _ => True :=
    fun operation hop _ _ _ _ hadmits => absurd (hadmits.mayCall hctx) (hno operation hop)
  constructor
  · rintro rpc ⟨shown, w', hrun, -⟩
    rcases rpc.run_ok hctx hrun with hmay | hmay
    · exact hno _ (by simp) hmay
    · exact hno _ (by simp) hmay
  · rintro rpc ⟨a, ha, r, w', hrun, hne⟩
    refine hne (Leaves.runs (Q := fun _ => True) ?_ hchain hrun).1
    cases rpc with
    | rotateKey req =>
      simp only [WriteRpc.actions, List.mem_cons, List.not_mem_nil, or_false] at ha
      rcases ha with rfl | rfl
      · exact leaves_discard (leaves_execWithAuth fun _ _ => leaves_rotateKey req)
      · refine leaves_discard (leaves_execWithAuth fun _ hadmits => ?_)
        exact leaves_rotateServed (hrotate (hadmits.mayCall hctx)) req
    | batchRotateKeys req =>
      obtain rfl := List.mem_singleton.mp ha
      refine leaves_discard (leaves_authorized fun _ hadmits => ?_)
      exact leaves_batchRotateKeys (hrotate (hadmits.mayCall hctx)) req
    | revokeKey req | updateKeyMetadata req =>
      obtain rfl := List.mem_singleton.mp ha
      exact leaves_discard (leaves_execWithAuth (hdenied _ (by simp)))
    | batchRevokeKeys req | batchUpdateKeyMetadata req =>
      obtain rfl := List.mem_singleton.mp ha
      exact leaves_discard (leaves_authorized (hdenied _ (by simp)))

/-! ## 4. Within reach

The other direction needs runs. The batch handlers ask about the zero id, of which there is
nothing to check, so whoever passes the gates reaches the service, and there one request of each
kind is enough. -/

/-- The requester context of somebody who says who they are. -/
def ownContext (user : AuthenticatedUser) : Option RequesterContext := some ⟨user.id, .free⟩

theorem ownContext_identity (hid : user.id ≠ "") : hasIdentity (ownContext user) = true := by
  simp [hasIdentity, ownContext, hid]

theorem MayCall.admits (h : MayCall p ctx user operation) (hctx : ctx.user = some user) :
    Admits p.authorization ctx (ownContext user) operation user where
  authenticated := by simp [AuthorizationConfig.authenticateAndAuthorize, hctx, h.1]
  requester := by simp [AuthorizationConfig.checkRequester, ownContext, identityOf]
  identity := h.2

/-- About the zero id there is nothing to check. -/
theorem checkAuthorization_zero (uuid : UUIDPkg) (kms : KMS) (cfg : AuthorizationConfig)
    (w : World) :
    ∃ reason, Act.Runs (worldSem uuid kms)
      (checkAuthorization getKeyAnswer cfg user operation .nil reqContext) w
      (.ok (true, reason)) w := by
  unfold checkAuthorization
  split
  · exact ⟨_, rfl, rfl⟩
  · exact ⟨_, rfl, rfl⟩

theorem cachedDecision_zero (uuid : UUIDPkg) (kms : KMS) (cfg : AuthorizationConfig)
    (hcache : Positive w.policyCache) :
    ∃ reason cache, Act.Runs (worldSem uuid kms)
      (cachedDecision uuid cfg user reqContext operation .nil) w (.ok (true, reason))
      { w with policyCache := cache } := by
  let cacheKey := policyKey uuid user.id operation .nil
  have hget : Act.Runs (worldSem uuid kms)
      (Act.call (I := Effect) (.policyGet cacheKey) : Svc (Option Bool)) w
      (.ok (w.policyCache.get w.clock cacheKey)) w :=
    Act.runs_call.mpr ⟨w.clock, le_rfl, rfl, rfl⟩
  cases hcached : w.policyCache.get w.clock cacheKey with
  | some b =>
    rw [hcached] at hget
    obtain ⟨i, hi, -, rfl⟩ := Cache.get_eq_some.mp hcached
    refine ⟨"authorized_by_cache", w.policyCache, Act.runs_bind_ok.mpr ⟨_, w, hget, ?_⟩⟩
    rw [hcache cacheKey i hi]
    exact ⟨rfl, rfl⟩
  | none =>
    rw [hcached] at hget
    obtain ⟨reason, hcheck⟩ := checkAuthorization_zero uuid kms cfg w
    have hset : Act.Runs (worldSem uuid kms)
        (Act.call (I := Effect) (.policySet cacheKey true 0) : Svc Unit) w (.ok ())
        { w with policyCache := w.policyCache.set w.clock cacheKey true 0 } :=
      Act.runs_call.mpr ⟨w.clock, le_rfl, rfl⟩
    refine ⟨reason, w.policyCache.set w.clock cacheKey true 0,
      Act.runs_bind_ok.mpr ⟨none, w, hget, ?_⟩⟩
    refine Act.runs_bind_ok.mpr ⟨_, w, hcheck, ?_⟩
    exact Act.runs_bind_ok.mpr ⟨(), _, hset, rfl, rfl⟩

/-- Asked about the zero id, the authorizer can agree whenever the gates do. -/
theorem authorize_zero (uuid : UUIDPkg) (kms : KMS) {cfg : AuthorizationConfig}
    (h : Admits cfg ctx reqContext operation user) (hcache : Positive w.policyCache) :
    ∃ reason cache audit, Act.Runs (worldSem uuid kms)
      (authorize uuid cfg ctx reqContext operation .nil) w (.ok (true, reason))
      { w with policyCache := cache, audit := audit } := by
  obtain ⟨reason, cache, hdecide⟩ := cachedDecision_zero uuid kms cfg hcache
  let event : AuditEvent := ⟨user.id, operation, KeyID.nil.string uuid, true, none⟩
  have haudit : Act.Runs (worldSem uuid kms)
      (auditDecision uuid user.id operation .nil (true, reason)) { w with policyCache := cache }
      (.ok (true, reason)) { w with policyCache := cache, audit := w.audit ++ [event] } :=
    Act.runs_bind_ok.mpr ⟨(), _, Act.runs_call.mpr ⟨w.clock, le_rfl, rfl⟩, rfl, rfl⟩
  refine ⟨reason, cache, w.audit ++ [event], ?_⟩
  unfold authorize
  rw [h.authenticated]
  simp only [h.requester, h.identity]
  exact Act.runs_bind_ok.mpr ⟨_, _, hdecide, haudit⟩

/-- Whoever may call, reaches the service. -/
theorem execWithoutKey_runs (hmay : MayCall p ctx user operation) (hctx : ctx.user = some user)
    (hcache : Positive w.policyCache) {fn : Svc α} {P : α → World → Prop}
    (h : ∀ w₁ : World, w₁.table = w.table → ∃ a w',
      Act.Runs (worldSem p.keyService.uuid kms) fn w₁ (.ok a) w' ∧ P a w') :
    ∃ a w', Act.Runs (worldSem p.keyService.uuid kms)
      (p.execWithoutKey ctx operation (ownContext user) fn) w (.ok a) w' ∧ P a w' := by
  obtain ⟨reason, cache, audit, hauth⟩ :=
    authorize_zero p.keyService.uuid kms (hmay.admits hctx) hcache
  exact Act.exists_runs_bind hauth (h { w with policyCache := cache, audit := audit } rfl)

end Access

/-! ### What the service does for whoever reaches it -/

section Service

variable {s : KeyService} {w : World} {k : KeyID} {reqContext : Option RequesterContext}

theorem timeNow_runs (uuid : UUIDPkg) (kms : KMS) (w : World) :
    Act.Runs (worldSem uuid kms) (Act.call (I := Effect) .timeNow : Svc Time) w (.ok w.clock) w :=
  Act.runs_call.mpr ⟨w.clock, le_rfl, rfl, rfl⟩

theorem getKey_repo_runs (uuid : UUIDPkg) (kms : KMS) {n : Row} (hn : w.table.latest k = some n) :
    Act.Runs (worldSem uuid kms) (repo (.getKey k)) w (.ok n.scan) w :=
  runs_repo_ok.mpr ⟨w.clock, w.table, le_rfl, PSQLAdapter.exec_getKey.mpr ⟨n, hn, rfl, rfl⟩, rfl⟩

/-- A batch read of the metadata. -/
def readOne (s : KeyService) (k : KeyID) (reqContext : Option RequesterContext) :
    BatchGetRequest := ⟨[⟨k.string s.uuid, 0, false⟩], false, reqContext⟩

theorem batchGetKeyMetadata_shows (kms : KMS) (hchain : Chain s.uuid w.table)
    (hrows : w.table.versionsOf k ≠ []) (hidentity : hasIdentity reqContext = true) :
    ∃ resp w', Act.Runs (worldSem s.uuid kms) (s.batchGetKeyMetadata (readOne s k reqContext)) w
      (.ok resp) w' ∧ ∃ x ∈ resp.shown GetKeyMetadataResponse.shown, x.Of w.table k := by
  have hcanon : Canonical s (readOne s k reqContext) := by
    intro item hitem
    obtain rfl := List.mem_singleton.mp hitem
    exact ⟨k, rfl⟩
  obtain ⟨r, hr⟩ := Table.exists_oldest hrows
  obtain ⟨hmem, hid, -⟩ := Table.oldest_eq_some.mp hr
  obtain ⟨m, hm, -⟩ := hchain.metadata r hmem
  obtain ⟨resp, w', hrun, hall⟩ := batchGetKeyMetadata_runs kms hchain hcanon hidentity
  refine ⟨resp, w', hrun, .metadata m, ?_, r, Table.mem_versionsOf.mpr ⟨hmem, hid⟩, hm⟩
  have hok := batchGetKeyMetadata_ok hchain hcanon hrun
  obtain ⟨out, rest, hout, -, hresults⟩ := List.forall₂_cons_left_iff.mp hall
  rw [hresults] at hok
  obtain ⟨hfound, -⟩ := List.forall₂_cons.mp hok
  have hrow : batchRow s w.table ⟨k.string s.uuid, 0, false⟩ = some r :=
    (batchRow_string rfl).trans hr
  obtain ⟨g, hg⟩ := hout r hrow
  obtain ⟨r', hr', hgm⟩ := hfound g hg
  obtain rfl : r = r' := Option.some.inj (hrow.symm.trans hr')
  simp [BatchResponse.shown, hresults, hg, Except.toOption, GetKeyMetadataResponse.shown, hgm, hm]

/-- A list of as many keys as there are rows. -/
def listAll (t : Table) (reqContext : Option RequesterContext) : ListKeysRequest :=
  ⟨"", t.rows.length, reqContext⟩

/-- A page as long as the table holds the latest row of every key. -/
theorem mem_listKeys {t : Table} {n : Row} (hn : t.latest k = some n) :
    ∃ keys, PSQLAdapter.listKeys t none t.rows.length = .ok keys ∧ n.scan ∈ keys := by
  obtain ⟨hmem, hid, -⟩ := Table.latest_eq_some.mp hn
  have hlimit : ¬ (t.rows.length : Int) < 0 := by omega
  refine ⟨_, if_neg hlimit, List.mem_map_of_mem ?_⟩
  rw [Int.toNat_natCast, List.take_of_length_le]
  · refine (List.mem_insertionSort _).mpr ?_
    refine List.mem_filter.mpr ⟨List.mem_filter.mpr ⟨hmem, ?_⟩, rfl⟩
    simpa [hid] using hn
  · rw [List.length_insertionSort]
    exact (List.length_filter_le _ _).trans (List.length_filter_le _ _)

theorem listKeys_shows (kms : KMS) (hchain : Chain s.uuid w.table)
    (hrows : w.table.versionsOf k ≠ []) :
    ∃ resp w', Act.Runs (worldSem s.uuid kms) (s.listKeys (listAll w.table reqContext)) w
      (.ok resp) w' ∧ ∃ x ∈ resp.shown, x.Of w.table k := by
  obtain ⟨n, hn⟩ := Table.exists_latest hrows
  obtain ⟨hmem, hid, -⟩ := Table.latest_eq_some.mp hn
  obtain ⟨m, hm, -⟩ := hchain.metadata n hmem
  obtain ⟨keys, hkeys, hnkeys⟩ := mem_listKeys hn
  have hpos := List.length_pos_of_mem hmem
  have hrepo : Act.Runs (worldSem s.uuid kms) (repo (.listKeys none
      (if (listAll w.table reqContext).pageSize = 0 then 100
        else (listAll w.table reqContext).pageSize))) w (.ok keys) w := by
    refine runs_repo_ok.mpr ⟨w.clock, w.table, le_rfl, ?_, rfl⟩
    change (PSQLAdapter.listKeys w.table none (ite ((w.table.rows.length : Int) = 0) _ _), _) = _
    rw [if_neg (by omega)]
    exact congrArg (·, w.table) hkeys
  have hcursor : Act.Runs (worldSem s.uuid kms) (pure none : Svc (Option Time)) w (.ok none) w :=
    ⟨rfl, rfl⟩
  unfold KeyService.listKeys
  refine Act.exists_runs_bind hcursor (Act.exists_runs_bind hrepo ?_)
  refine Act.exists_runs_bind (timeNow_runs s.uuid kms w) ⟨_, w, ⟨rfl, rfl⟩, .metadata m, ?_⟩
  refine ⟨?_, n, Table.mem_versionsOf.mpr ⟨hmem, hid⟩, hm⟩
  refine List.mem_flatMap.mpr ⟨some m, List.mem_map.mpr ⟨n.scan, hnkeys, hm⟩, ?_⟩
  exact List.mem_singleton_self _

/-- A row that changes is not the row it was. -/
theorem versionsOf_ne {t t' : Table} {n : Row} (hn : t.latest k = some n)
    (hne : t'.latest k ≠ some n) : t'.versionsOf k ≠ t.versionsOf k := by
  intro hsame
  refine hne ?_
  rw [← hn]
  simp only [Table.latest, hsame]

/-- The clock can be read at a time whose microseconds are not a given one. -/
theorem exists_timestamptz_ne (clock : Time) (x : Option Time) :
    ∃ now, clock ≤ now ∧ some (timestamptz now) ≠ x := by
  have hlater : ∀ c y : Int, ∃ now : Int, c ≤ now ∧ now / 1000 * 1000 ≠ y := by
    intro c y
    refine ⟨max c (y + 1000), le_max_left _ _, ?_⟩
    have hge : y + 1000 ≤ max c (y + 1000) := le_max_right _ _
    omega
  obtain ⟨now, hnow, hne⟩ := hlater clock (x.getD 0)
  refine ⟨now, hnow, fun heq => hne ?_⟩
  rw [← heq]
  rfl

/-- A batch revocation of one key. -/
def revokeOne (s : KeyService) (k : KeyID) (reqContext : Option RequesterContext) :
    BatchRevokeKeysRequest := ⟨[k.string s.uuid], false, reqContext⟩

theorem batchRevokeKeys_changes (kms : KMS) (hrows : w.table.versionsOf k ≠ [])
    (hidentity : hasIdentity reqContext = true) :
    ∃ resp w', Act.Runs (worldSem s.uuid kms) (s.batchRevokeKeys (revokeOne s k reqContext)) w
      (.ok resp) w' ∧ w'.table.versionsOf k ≠ w.table.versionsOf k := by
  obtain ⟨n, hn⟩ := Table.exists_latest hrows
  have hid : n.id = k := (Table.latest_eq_some.mp hn).2.1
  obtain ⟨now, hnow, hne⟩ := exists_timestamptz_ne w.clock n.revokedAt
  let w₁ : World := { w with table := w.table.revoke [k] (timestamptz now), clock := now }
  have hrepo : Act.Runs (worldSem s.uuid kms) (repo (.revokeBatchKeys [k])) w (.ok ()) w₁ :=
    runs_repo_ok.mpr ⟨now, _, hnow, rfl, rfl⟩
  have hitems : (revokeOne s k reqContext).keys.foldl (KeyService.RevokeItems.add s) ⟨[], [], []⟩ =
      ⟨[k], [k.string s.uuid], []⟩ := by
    simp [revokeOne, KeyService.RevokeItems.add]
  have hchanged : (w.table.revoke [k] (timestamptz now)).latest k ≠ some n := by
    rw [Table.revoke, Table.latest_mapRows, hn, Option.map_some, if_pos (by simp [hid])]
    exact fun heq => hne (congrArg Row.revokedAt (Option.some.inj heq))
  have hstart : s.batchRevokeKeys (revokeOne s k reqContext) =
      s.revokeItems (revokeOne s k reqContext) := by
    simp [KeyService.batchRevokeKeys, revokeOne, hidentity, KeyService.firstInvalid]
  rw [hstart]
  unfold KeyService.revokeItems
  rw [hitems]
  refine Act.exists_runs_bind (Act.runs_attempt.mpr hrepo) ?_
  exact Act.exists_runs_bind (timeNow_runs s.uuid kms w₁)
    ⟨_, w₁, ⟨rfl, rfl⟩, versionsOf_ne hn hchanged⟩

/-- An update that asks for no change. -/
def emptyUpdate (s : KeyService) (k : KeyID) : UpdateKeyMetadataItem :=
  ⟨k.string s.uuid, none, none, none, ∅, [], ∅, [], []⟩

def updateOne (s : KeyService) (k : KeyID) (reqContext : Option RequesterContext) :
    BatchUpdateKeyMetadataRequest := ⟨[emptyUpdate s k], false, reqContext⟩

/-- The loop of `BatchUpdateKeyMetadata` on that item. -/
theorem updateLoop_runs (kms : KMS) {n : Row} {m : KeyMetadata} (hn : w.table.latest k = some n)
    (hm : n.metadata = some m) :
    Act.Runs (worldSem s.uuid kms) (s.updateLoop false [emptyUpdate s k]) w
      (.ok ([KeyService.applyItem (emptyUpdate s k) none w.clock n.scan m], [])) w := by
  have hmeta : Key.metadata n.scan = some m := hm
  have hitem : Act.Runs (worldSem s.uuid kms) (s.updateItem (emptyUpdate s k)) w
      (.ok (.ok (KeyService.applyItem (emptyUpdate s k) none w.clock n.scan m))) w := by
    simp only [KeyService.updateItem, emptyUpdate, keyIDFromString_string]
    refine Act.runs_bind_ok.mpr
      ⟨_, w, Act.runs_attempt.mpr (getKey_repo_runs s.uuid kms hn), ?_⟩
    simp only [KeyService.checkDescription, hmeta]
    exact Act.runs_bind_ok.mpr ⟨_, w, timeNow_runs s.uuid kms w, rfl, rfl⟩
  exact Act.runs_bind_ok.mpr ⟨_, w, hitem, Act.runs_bind_ok.mpr ⟨_, w, ⟨rfl, rfl⟩, rfl, rfl⟩⟩

theorem exec_updateOne (uuid : UUIDPkg) (now : Time) (t : Table) {key : Key}
    (hmeta : key.metadata ≠ none) : PSQLAdapter.exec uuid now (.updateBatchKeyMetadata [key]) t =
      (.ok (), t.updateMetadata key.id key.metadata (timestamptz now)) := by
  simp [PSQLAdapter.exec, PSQLAdapter.updateBatchKeyMetadata, PSQLAdapter.updateEach, hmeta]

/-- Even an update that asks for no change sets the time of the update. -/
theorem batchUpdateKeyMetadata_changes (kms : KMS) (hchain : Chain s.uuid w.table)
    (hrows : w.table.versionsOf k ≠ []) (hidentity : hasIdentity reqContext = true) :
    ∃ resp w', Act.Runs (worldSem s.uuid kms)
      (s.batchUpdateKeyMetadata (updateOne s k reqContext)) w (.ok resp) w' ∧
        w'.table.versionsOf k ≠ w.table.versionsOf k := by
  obtain ⟨n, hn⟩ := Table.exists_latest hrows
  obtain ⟨hmem, rfl, -⟩ := Table.latest_eq_some.mp hn
  obtain ⟨m, hm, -⟩ := hchain.metadata n hmem
  obtain ⟨now, hnow, hne⟩ := exists_timestamptz_ne w.clock (some n.updatedAt)
  let key : Key := KeyService.applyItem (emptyUpdate s n.id) none w.clock n.scan m
  let w₁ : World :=
    { w with table := w.table.updateMetadata n.id key.metadata (timestamptz now), clock := now }
  have hrepo : Act.Runs (worldSem s.uuid kms) (repo (.updateBatchKeyMetadata [key])) w
      (.ok ()) w₁ :=
    runs_repo_ok.mpr ⟨now, _, hnow, exec_updateOne _ _ _ (Option.some_ne_none _), rfl⟩
  have hchanged : (w.table.updateMetadata n.id key.metadata (timestamptz now)).latest n.id ≠
      some n := by
    rw [Table.updateMetadata, Table.latest_mapRows, hn, Option.map_some,
      if_pos ((Table.isNewest_iff_latest hmem).mpr hn)]
    exact fun heq => hne (congrArg (fun r => some (Row.updatedAt r)) (Option.some.inj heq))
  unfold KeyService.batchUpdateKeyMetadata
  rw [if_neg (by simp [updateOne, hidentity])]
  refine Act.exists_runs_bind (updateLoop_runs kms hn hm) ?_
  refine Act.exists_runs_bind (Act.runs_attempt.mpr hrepo) ?_
  exact Act.exists_runs_bind (timeNow_runs s.uuid kms w₁)
    ⟨_, w₁, ⟨rfl, rfl⟩, versionsOf_ne hn hchanged⟩

/-- A rotation adds a row. -/
theorem versionsOf_ne_of_rotation {now : Time} {t t' : Table} {dek : Bytes} {old : Row}
    {m : KeyMetadata} (h : PSQLAdapter.Rotation now t k dek old m t') :
    t'.versionsOf k ≠ t.versionsOf k := by
  intro hsame
  have hid : old.id = k := (Table.latest_eq_some.mp h.latest).2.1
  have hnew : PSQLAdapter.rotatedRow now old m dek ∈ t'.versionsOf k := by
    refine Table.mem_versionsOf.mpr ⟨?_, hid⟩
    rw [h.rows]
    exact List.mem_append_right _ (List.mem_singleton_self _)
  rw [hsame] at hnew
  exact Table.atVersion_eq_none.mp h.free _ (Table.mem_versionsOf.mp hnew).1 hid rfl

/-- A batch rotation of one key. -/
def rotateOne (s : KeyService) (k : KeyID) (reqContext : Option RequesterContext) :
    BatchRotateKeysRequest := ⟨[⟨k.string s.uuid, 0⟩], false, reqContext⟩

theorem batchRotateKeys_changes {kms : KMS} (hchain : Chain s.uuid w.table)
    (hrotatable : Rotatable s kms w.table k) (hidentity : hasIdentity reqContext = true) :
    ∃ resp w', Act.Runs (worldSem s.uuid kms) (s.batchRotateKeys (rotateOne s k reqContext)) w
      (.ok resp) w' ∧ w'.table.versionsOf k ≠ w.table.versionsOf k := by
  obtain ⟨n, hn, hlt, hm, provider, size, dek, encrypted, hprovider, hsize, hdek, hencrypts, hne⟩ :=
    hrotatable
  obtain ⟨key, t', hrotated⟩ := (rotateKey_ok_iff hchain hn hne w.clock).mpr ⟨hlt, hm⟩
  obtain ⟨old, m, hrot, -⟩ := PSQLAdapter.rotateKey_eq_ok.mp hrotated
  let w₁ : World := { w with table := t' }
  have hrand : Act.Runs (worldSem s.uuid kms) (randRead size) w (.ok dek) w :=
    Act.runs_tryCall.mpr ⟨.ok dek, ⟨w.clock, le_rfl, fun _ h => Except.ok.inj h ▸ hdek, rfl⟩, rfl⟩
  have hencrypt : Act.Runs (worldSem s.uuid kms) (encryptDEK provider dek n.scan) w
      (.ok encrypted) w :=
    Act.runs_tryCall.mpr ⟨.ok encrypted, ⟨w.clock, le_rfl, hencrypts, rfl⟩, rfl⟩
  have hrepo : Act.Runs (worldSem s.uuid kms) (repo (.rotateKey k encrypted)) w (.ok key) w₁ :=
    runs_repo_ok.mpr ⟨w.clock, t', le_rfl, hrotated, rfl⟩
  have hprocess : Act.Runs (worldSem s.uuid kms) (s.processRotation k) w
      (.ok (n.scan, key)) w₁ := by
    unfold KeyService.processRotation
    simp only [Act.runs_bind_ok, Act.runs_mapError_ok, Act.runs_ofExcept, Act.runs_pure]
    exact ⟨n.scan, w, getKey_repo_runs s.uuid kms hn, provider, w, ⟨hprovider.symm, rfl⟩,
      size, w, ⟨hsize.symm, rfl⟩, dek, w, hrand, encrypted, w, hencrypt, key, w₁, hrepo, rfl, rfl⟩
  let item : RotateKeyItem := ⟨k.string s.uuid, 0⟩
  have hitem : Act.Runs (worldSem s.uuid kms) (processItem s.validateRotate s.rotateItem item) w
      (.ok (.ok (KeyService.rotationResponse item n.scan key w₁.clock))) w₁ := by
    have hvalid : s.validateRotate item = .ok () := by
      simp [KeyService.validateRotate, item, Except.map]
    simp only [processItem, hvalid]
    refine Act.runs_attempt.mpr (Act.runs_bind_ok.mpr ⟨k, w, ⟨?_, rfl⟩, ?_⟩)
    · exact (keyIDFromString_string _ _).symm
    · refine Act.runs_bind_ok.mpr ⟨_, w₁, hprocess, ?_⟩
      exact Act.runs_bind_ok.mpr ⟨_, w₁, timeNow_runs s.uuid kms w₁, rfl, rfl⟩
  have hbatch : Act.Runs (worldSem s.uuid kms) (processBatch s.validateRotate s.rotateItem [item]) w
      (.ok [.ok (KeyService.rotationResponse item n.scan key w₁.clock)]) w₁ :=
    Act.runs_bind_ok.mpr ⟨_, w₁, hitem, Act.runs_bind_ok.mpr ⟨[], w₁, ⟨rfl, rfl⟩, rfl, rfl⟩⟩
  unfold KeyService.batchRotateKeys
  rw [if_neg (by simp [rotateOne, hidentity])]
  refine Act.exists_runs_bind hbatch ?_
  exact Act.exists_runs_bind (timeNow_runs s.uuid kms w₁)
    ⟨_, w₁, ⟨rfl, rfl⟩, versionsOf_ne_of_rotation hrot⟩

end Service

/-! ## 5. Access is by roles -/

section Access

variable {p : PolykeyService} {kms : KMS} {ctx : CallContext} {user : AuthenticatedUser}
  {w : World} {k : KeyID}

/-- **Readers read every key**, by `BatchGetKeyMetadata`. -/
theorem discloses_of_read (hmay : MayCall p ctx user authKeysRead) (hctx : ctx.user = some user)
    (hid : user.id ≠ "") (hchain : Chain p.keyService.uuid w.table)
    (hcache : Positive w.policyCache) (hrows : w.table.versionsOf k ≠ []) :
    (ReadRpc.batchGetKeyMetadata (readOne p.keyService k (ownContext user))).Discloses
      p kms ctx w k := by
  have hshows : ∀ w₁ : World, w₁.table = w.table → ∃ resp w',
      Act.Runs (worldSem p.keyService.uuid kms)
        (p.keyService.batchGetKeyMetadata (readOne p.keyService k (ownContext user))) w₁
        (.ok resp) w' ∧ ∃ x ∈ resp.shown GetKeyMetadataResponse.shown, x.Of w.table k := by
    intro w₁ htable
    rw [← htable] at hchain hrows ⊢
    exact batchGetKeyMetadata_shows kms hchain hrows (ownContext_identity hid)
  obtain ⟨resp, w', hrun, hshown⟩ := execWithoutKey_runs hmay hctx hcache hshows
  exact ⟨_, w', Act.runs_bind_ok.mpr ⟨resp, w', hrun, rfl, rfl⟩, hshown⟩

/-- **Whoever may list sees every key**, by `ListKeys`. -/
theorem discloses_of_list (hmay : MayCall p ctx user authKeysList) (hctx : ctx.user = some user)
    (hchain : Chain p.keyService.uuid w.table) (hcache : Positive w.policyCache)
    (hrows : w.table.versionsOf k ≠ []) :
    (ReadRpc.listKeys (listAll w.table (ownContext user))).Discloses p kms ctx w k := by
  have hshows : ∀ w₁ : World, w₁.table = w.table → ∃ resp w',
      Act.Runs (worldSem p.keyService.uuid kms)
        (p.keyService.listKeys (listAll w.table (ownContext user))) w₁ (.ok resp) w' ∧
          ∃ x ∈ resp.shown, x.Of w.table k := by
    intro w₁ htable
    rw [← htable] at hchain hrows ⊢
    exact listKeys_shows kms hchain hrows
  obtain ⟨resp, w', hrun, hshown⟩ := execWithoutKey_runs hmay hctx hcache hshows
  exact ⟨_, w', Act.runs_bind_ok.mpr ⟨resp, w', hrun, rfl, rfl⟩, hshown⟩

/-- A batch handler changes what the service call behind it changes. -/
theorem changes_of_execWithoutKey {operation : String} {α : Type} {fn : Svc α}
    (hmay : MayCall p ctx user operation) (hctx : ctx.user = some user)
    (hcache : Positive w.policyCache)
    (h : ∀ w₁ : World, w₁.table = w.table → ∃ a w',
      Act.Runs (worldSem p.keyService.uuid kms) fn w₁ (.ok a) w' ∧
        w'.table.versionsOf k ≠ w₁.table.versionsOf k) :
    ∃ r w', Act.Runs (worldSem p.keyService.uuid kms)
      (discard (p.execWithoutKey ctx operation (ownContext user) fn)) w r w' ∧
        w'.table.versionsOf k ≠ w.table.versionsOf k := by
  have hchanges : ∀ w₁ : World, w₁.table = w.table → ∃ a w',
      Act.Runs (worldSem p.keyService.uuid kms) fn w₁ (.ok a) w' ∧
        w'.table.versionsOf k ≠ w.table.versionsOf k := by
    intro w₁ htable
    rw [← htable]
    exact h w₁ htable
  obtain ⟨a, w', hrun, hne⟩ := execWithoutKey_runs hmay hctx hcache hchanges
  exact ⟨.ok (), w', Act.runs_bind_ok.mpr ⟨a, w', hrun, rfl, rfl⟩, hne⟩

/-- **Access is by roles.**  A key in the table is out of a user's reach exactly if the user's
roles let the user read, list, revoke and update no key at all, and rotate none if this one can be
rotated.  The contexts of the key play no part. -/
theorem access_by_roles (hctx : ctx.user = some user) (hid : user.id ≠ "")
    (hchain : Chain p.keyService.uuid w.table) (hcache : Positive w.policyCache)
    (hrows : w.table.versionsOf k ≠ []) :
    OutOfReach p kms ctx w k ↔ NoRole p kms ctx user w.table k := by
  refine ⟨fun ⟨hread, hwrite⟩ => ⟨?_, fun hmay hrotatable => ?_⟩,
    fun h => h.outOfReach hctx hchain⟩
  · -- Each operation has a call without a key that gets at this one.
    simp only [List.forall_mem_cons, List.not_mem_nil, false_imp_iff, implies_true, and_true]
    refine ⟨fun hmay => ?_, fun hmay => ?_, fun hmay => ?_, fun hmay => ?_⟩
    · exact hread _ (discloses_of_read hmay hctx hid hchain hcache hrows)
    · exact hread _ (discloses_of_list hmay hctx hchain hcache hrows)
    · refine hwrite (.batchRevokeKeys (revokeOne p.keyService k (ownContext user)))
        ⟨_, List.mem_singleton_self _, ?_⟩
      refine changes_of_execWithoutKey hmay hctx hcache fun w₁ htable => ?_
      exact batchRevokeKeys_changes kms (htable ▸ hrows) (ownContext_identity hid)
    · refine hwrite (.batchUpdateKeyMetadata (updateOne p.keyService k (ownContext user)))
        ⟨_, List.mem_singleton_self _, ?_⟩
      refine changes_of_execWithoutKey hmay hctx hcache fun w₁ htable => ?_
      exact batchUpdateKeyMetadata_changes kms (htable ▸ hchain) (htable ▸ hrows)
        (ownContext_identity hid)
  · refine hwrite (.batchRotateKeys (rotateOne p.keyService k (ownContext user)))
      ⟨_, List.mem_singleton_self _, ?_⟩
    refine changes_of_execWithoutKey hmay hctx hcache fun w₁ htable => ?_
    exact batchRotateKeys_changes (htable ▸ hchain) (htable ▸ hrotatable) (ownContext_identity hid)

end Access

/-! ### A user among no contexts -/

/-- The service, where the staff may read and revoke keys. -/
def staffService : PolykeyService where
  keyService := sampleService
  authorization := ⟨AList.singleton "staff" [authKeysRead, authKeysRevoke], false⟩

/-- One key, whose only context is Alice. -/
def aliceKey : World := (samplePool [.start sampleCreate, .finish 0]).state

theorem aliceKey_chain : Chain googleUUID aliceKey.table := (samplePool_reachable _).chain

theorem aliceKey_rows : aliceKey.table.versionsOf sampleID ≠ [] := by decide +kernel

theorem aliceKey_contexts : ∀ n ∈ aliceKey.table.versionsOf sampleID, ∀ m, n.metadata = some m →
    "bob" ∉ m.authorizedContexts := by
  have hcontexts : (aliceKey.table.versionsOf sampleID).all (fun n =>
      n.metadata.all fun m => "bob" ∉ m.authorizedContexts) = true := by decide +kernel
  intro n hn m hm
  simpa [hm] using List.all_eq_true.mp hcontexts n hn

/-- No decision is cached yet. -/
theorem aliceKey_policyCache (cacheKey : String) :
    aliceKey.policyCache.items.lookup cacheKey = none := by
  have hkeys : aliceKey.policyCache.items.keys = [] := by decide +kernel
  refine AList.lookup_eq_none.mpr fun hmem => ?_
  rw [AList.mem_keys, hkeys] at hmem
  exact List.not_mem_nil hmem

theorem aliceKey_positive : Positive aliceKey.policyCache := by
  intro key item hitem
  rw [aliceKey_policyCache] at hitem
  cases hitem

def bob (permissions : List String) : AuthenticatedUser := ⟨"bob", permissions⟩

def bobContext (permissions : List String) : CallContext := ⟨some (bob permissions), none⟩

/-- Without a role, Bob does not reach the key. -/
theorem access_by_roles_noRole :
    OutOfReach staffService sampleKMS (bobContext []) aliceKey sampleID := by
  refine (access_by_roles rfl (by decide) aliceKey_chain aliceKey_positive aliceKey_rows).mpr
    ⟨?_, ?_⟩
  · rintro operation - ⟨hgrants, -⟩
    cases hgrants
  · rintro ⟨hgrants, -⟩
    cases hgrants

/-- Is this the material of a row of the key? -/
def Shown.isMaterialOf (t : Table) (k : KeyID) : Shown → Bool
  | material data => (t.versionsOf k).any (·.encryptedDEK = data)
  | metadata _ => false

theorem Shown.of_isMaterialOf {t : Table} {k : KeyID} {x : Shown} (h : x.isMaterialOf t k = true) :
    x.Of t k := by
  cases x with
  | material data =>
    obtain ⟨r, hr, hdata⟩ := List.any_eq_true.mp h
    exact ⟨r, hr, of_decide_eq_true hdata⟩
  | metadata m => cases h

/-- No single-key handler gives Bob the key. -/
theorem aliceKey_denied {operation : String} {α : Type} {fn : Svc α}
    {reqContext : Option RequesterContext} {a : α} {w' : World}
    (hop : operation ∈ resourceOperations) :
    ¬ Act.Runs (worldSem googleUUID sampleKMS)
      (staffService.execWithAuth (bobContext ["staff"]) operation sampleText reqContext fn) aliceKey
      (.ok a) w' := by
  obtain ⟨n, hn⟩ := Table.exists_latest aliceKey_rows
  obtain ⟨hmem, hid, -⟩ := Table.latest_eq_some.mp hn
  obtain ⟨m, hm, -⟩ := aliceKey_chain.metadata n hmem
  have hnot := aliceKey_contexts n (Table.mem_versionsOf.mpr ⟨hmem, hid⟩) m hm
  refine execWithAuth_denied (p := staffService) rfl (by decide +kernel) hop hn hm hnot
    (keyIDFromString_string _ _) (by decide) fun now => ?_
  simp [Cache.get, aliceKey_policyCache]

/-- **Keys denied one by one are reached by the batch.**  Bob is not among the contexts of the key:
`GetKey` and `RevokeKey` refuse, `BatchGetKeys` returns its material and `BatchRevokeKeys` revokes
it. -/
theorem batch_reaches_denied_key :
    staffService.authorization.isAdmin (bob ["staff"]) = false ∧
    (∀ n ∈ aliceKey.table.versionsOf sampleID, ∀ m, n.metadata = some m →
      "bob" ∉ m.authorizedContexts) ∧
    (∀ req : GetKeyRequest, req.keyId = sampleText → ∀ resp w',
      ¬ Act.Runs (worldSem googleUUID sampleKMS) (staffService.getKey (bobContext ["staff"]) req)
        aliceKey (.ok resp) w') ∧
    (∀ req : RevokeKeyRequest, req.keyId = sampleText → ∀ resp w',
      ¬ Act.Runs (worldSem googleUUID sampleKMS) (staffService.revokeKey (bobContext ["staff"]) req)
        aliceKey (.ok resp) w') ∧
    (ReadRpc.batchGetKeys (readOne sampleService sampleID (ownContext (bob ["staff"])))).Discloses
      staffService sampleKMS (bobContext ["staff"]) aliceKey sampleID ∧
    (WriteRpc.batchRevokeKeys
      (revokeOne sampleService sampleID (ownContext (bob ["staff"])))).Changes
      staffService sampleKMS (bobContext ["staff"]) aliceKey sampleID := by
  refine ⟨by decide +kernel, aliceKey_contexts, ?_, ?_, ?_, ?_⟩
  · rintro ⟨_, _, _, _⟩ rfl resp w'
    exact aliceKey_denied (by decide)
  · rintro ⟨_, _⟩ rfl resp w'
    exact aliceKey_denied (by decide)
  · obtain ⟨shown, w', hrun, hany⟩ := exists_run
      ((ReadRpc.batchGetKeys (readOne sampleService sampleID (ownContext (bob ["staff"])))).run
        staffService (bobContext ["staff"])) aliceKey
      (List.any · (Shown.isMaterialOf aliceKey.table sampleID)) (by decide +kernel)
    obtain ⟨x, hx, hof⟩ := List.any_eq_true.mp hany
    exact ⟨shown, w', hrun, x, hx, Shown.of_isMaterialOf hof⟩
  · refine ⟨_, List.mem_singleton_self _, ?_⟩
    refine changes_of_execWithoutKey ⟨by decide +kernel, rfl⟩ rfl aliceKey_positive
      fun w₁ htable => ?_
    exact batchRevokeKeys_changes sampleKMS (htable ▸ aliceKey_rows) (by decide)

end Polykey
