/-
# The RPC handlers

`app/grpc.PolykeyService`.  Every handler asks the authorizer and then calls the service.  There
are two wrappers: `execWithAuth` parses the key id of the request and asks about that key,
`execWithoutKey` asks about the zero id.  A handler of the first kind passes one key id to the
authorizer and the same request to the service; a batch passes no key id at all.

The error of a handler is the one it hands to `sanitizeError`.

The second half of the module is about the rows of one key: `Leaves` says of an action that it
does not change them, whatever it returns and whatever else happens in the table.
-/
import Polykey.Auth.Authorizer

namespace Polykey

open Lib

/-! ## 1. The handlers -/

/-- What the handlers use of `PolykeyDeps`. -/
structure PolykeyService where
  keyService : KeyService
  authorization : AuthorizationConfig

namespace PolykeyService

/-- Go on if the authorizer lets the call pass. -/
def authorized (p : PolykeyService) (ctx : CallContext) (authOp : String)
    (reqContext : Option RequesterContext) (keyID : KeyID) {α : Type} (fn : Svc α) : Svc α := do
  let decision ← authorize p.keyService.uuid p.authorization ctx reqContext authOp keyID
  if decision.1 then fn else Act.throw (.detail .errAuthorization decision.2)

/-- `execWithAuth`. -/
def execWithAuth (p : PolykeyService) (ctx : CallContext) (authOp keyIDStr : String)
    (reqContext : Option RequesterContext) {α : Type} (fn : Svc α) : Svc α := do
  let keyID ← Act.ofExcept (keyIDFromString p.keyService.uuid keyIDStr)
  p.authorized ctx authOp reqContext keyID fn

/-- `execWithoutKey`. -/
def execWithoutKey (p : PolykeyService) (ctx : CallContext) (authOp : String)
    (reqContext : Option RequesterContext) {α : Type} (fn : Svc α) : Svc α :=
  p.authorized ctx authOp reqContext .nil fn

def getKey (p : PolykeyService) (ctx : CallContext) (req : GetKeyRequest) : Svc GetKeyResponse :=
  p.execWithAuth ctx authKeysRead req.keyId req.requesterContext (p.keyService.getKey req)

def createKey (p : PolykeyService) (ctx : CallContext) (req : CreateKeyRequest) :
    Svc CreateKeyResponse :=
  p.execWithoutKey ctx authKeysCreate req.requesterContext (p.keyService.createKey req)

def batchCreateKeys (p : PolykeyService) (ctx : CallContext) (req : BatchCreateKeysRequest) :
    Svc (List (Except String CreatedKey)) :=
  p.execWithoutKey ctx authKeysCreate req.requesterContext (p.keyService.batchCreateKeys req)

def batchGetKeys (p : PolykeyService) (ctx : CallContext) (req : BatchGetRequest) :
    Svc (BatchResponse GetKeyResponse) :=
  p.execWithoutKey ctx authKeysRead req.requesterContext (p.keyService.batchGetKeys req)

def batchGetKeyMetadata (p : PolykeyService) (ctx : CallContext) (req : BatchGetRequest) :
    Svc (BatchResponse GetKeyMetadataResponse) :=
  p.execWithoutKey ctx authKeysRead req.requesterContext (p.keyService.batchGetKeyMetadata req)

def batchRotateKeys (p : PolykeyService) (ctx : CallContext) (req : BatchRotateKeysRequest) :
    Svc (BatchResponse RotateKeyResponse) :=
  p.execWithoutKey ctx authKeysRotate req.requesterContext (p.keyService.batchRotateKeys req)

def batchRevokeKeys (p : PolykeyService) (ctx : CallContext) (req : BatchRevokeKeysRequest) :
    Svc (BatchResponse Unit) :=
  p.execWithoutKey ctx authKeysRevoke req.requesterContext (p.keyService.batchRevokeKeys req)

def batchUpdateKeyMetadata (p : PolykeyService) (ctx : CallContext)
    (req : BatchUpdateKeyMetadataRequest) : Svc (BatchResponse Unit) :=
  p.execWithoutKey ctx authKeysUpdate req.requesterContext
    (p.keyService.batchUpdateKeyMetadata req)

def listKeys (p : PolykeyService) (ctx : CallContext) (req : ListKeysRequest) :
    Svc ListKeysResponse :=
  p.execWithoutKey ctx authKeysList req.requesterContext (p.keyService.listKeys req)

def rotateKey (p : PolykeyService) (ctx : CallContext) (req : RotateKeyRequest) :
    Svc RotateKeyResponse :=
  p.execWithAuth ctx authKeysRotate req.item.keyId req.requesterContext
    (p.keyService.rotateKey req)

def revokeKey (p : PolykeyService) (ctx : CallContext) (req : RevokeKeyRequest) : Svc Unit :=
  p.execWithAuth ctx authKeysRevoke req.keyId req.requesterContext (p.keyService.revokeKey req)

def updateKeyMetadata (p : PolykeyService) (ctx : CallContext) (req : UpdateKeyMetadataRequest) :
    Svc Unit :=
  p.execWithAuth ctx authKeysUpdate req.item.keyId req.requesterContext
    (p.keyService.updateKeyMetadata req)

def getKeyMetadata (p : PolykeyService) (ctx : CallContext) (req : GetKeyMetadataRequest) :
    Svc GetKeyMetadataResponse :=
  p.execWithAuth ctx authKeysRead req.keyId req.requesterContext
    (p.keyService.getKeyMetadata req)

end PolykeyService

/-! ## 2. Actions that leave the rows of a key alone -/

/-- The rows of `k` are those of the table `t`. -/
def rowsDiscipline (uuid : UUIDPkg) (kms : KMS) (t : Table) (k : KeyID) :
    Discipline Effect World where
  sem := worldSem uuid kms
  promise _ _ := True
  inv w := Chain uuid w.table ∧ w.table.versionsOf k = t.versionsOf k
  rely _ _ := True
  refl _ := trivial
  trans _ _ := trivial

/-- From every chain table with these rows of `k`, the action keeps them, and `Q` holds of what
it returns. -/
def Leaves (uuid : UUIDPkg) (kms : KMS) (t : Table) (k : KeyID) {α : Type} (p : Svc α)
    (Q : α → Prop) : Prop :=
  Act.Spec (rowsDiscipline uuid kms t k) (fun _ => True) p fun a _ => Q a

section Leaves

variable {uuid : UUIDPkg} {kms : KMS} {t : Table} {k : KeyID} {α β : Type} {p : Svc α}
  {Q : α → Prop} {w w' : World}

/-- An action that leaves the rows of a key alone, when it runs alone. -/
theorem Leaves.runs (h : Leaves uuid kms w.table k p Q) (hchain : Chain uuid w.table)
    {r : Except Err α} (hrun : Act.Runs (worldSem uuid kms) p w r w') :
    w'.table.versionsOf k = w.table.versionsOf k ∧ ∀ a, r = .ok a → Q a := by
  obtain ⟨⟨-, hrows⟩, hQ⟩ := Act.Spec.runs h (s := w) trivial ⟨hchain, rfl⟩ hrun
  exact ⟨hrows, hQ⟩

theorem Leaves.bind {f : α → Svc β} {Q' : β → Prop} (hp : Leaves uuid kms t k p Q)
    (hf : ∀ a, Q a → Leaves uuid kms t k (f a) Q') : Leaves uuid kms t k (p >>= f) Q' :=
  Act.Spec.bind_known hp hf

theorem Leaves.weaken {Q' : α → Prop} (hp : Leaves uuid kms t k p Q) (hQ : ∀ a, Q a → Q' a) :
    Leaves uuid kms t k p Q' :=
  Act.Spec.conseq hp (fun _ h => h) fun a _ h => hQ a h

theorem Leaves.pure {a : α} (h : Q a) : Leaves uuid kms t k (Pure.pure a) Q :=
  Act.Spec.pure fun _ _ => h

theorem Leaves.throw {e : Err} : Leaves uuid kms t k (Act.throw e) Q := Act.Spec.throw

theorem Leaves.ofExcept {x : Except Err α} (h : ∀ a, x = .ok a → Q a) :
    Leaves uuid kms t k (Act.ofExcept x) Q :=
  Act.Spec.ofExcept fun a ha _ _ => h a ha

theorem Leaves.mapError {f : Err → Err} (hp : Leaves uuid kms t k p Q) :
    Leaves uuid kms t k (Act.mapError f p) Q := Act.Spec.mapError hp

theorem Leaves.attempt (hp : Leaves uuid kms t k p Q) :
    Leaves uuid kms t k (Act.attempt p) fun r => ∀ a, r = .ok a → Q a := Act.Spec.attempt hp

/-- A call that is no repository call. -/
theorem Leaves.tryCall {op : EffectOp} {f : op.Res → Except Err α} (hop : op.isRepo = false)
    (hQ : ∀ w r w', worldSem uuid kms op w r w' → ∀ a, f r = .ok a → Q a) :
    Leaves uuid kms t k (Act.tryCall (I := Effect) op f) Q := by
  refine Act.Spec.tryCall (fun _ _ _ _ => trivial) fun w _ hi => ⟨trivial, fun r w' h => ?_⟩
  have htable := worldSem_table h hop
  refine ⟨?_, trivial, hQ w r w' h⟩
  change Chain uuid w'.table ∧ w'.table.versionsOf k = t.versionsOf k
  rw [htable]
  exact hi

theorem Leaves.call {op : EffectOp} (hop : op.isRepo = false) :
    Leaves uuid kms t k (Act.call (I := Effect) op) fun _ => True :=
  Leaves.tryCall (f := Except.ok) hop fun _ _ _ _ _ _ => trivial

/-- A repository call that creates no key and writes no metadata, if what it does to the rows of
`k` is nothing. -/
theorem Leaves.repo {op : RepoOp} {Q : op.Result → Prop} (hcreated : op.created = [])
    (hwritten : op.written = [])
    (h : ∀ (w : World) (now : Time) (r : op.Answer) (t' : Table), Chain uuid w.table →
      w.table.versionsOf k = t.versionsOf k → PSQLAdapter.Answers uuid now op w.table r t' →
        t'.versionsOf k = w.table.versionsOf k ∧ ∀ a, r = .ok a → Q a) :
    Leaves uuid kms t k (repo op) Q := by
  refine Act.Spec.tryCall (fun _ _ _ _ => trivial) fun w _ hi => ⟨trivial, fun r w' hop => ?_⟩
  obtain ⟨now, -, t', hans, rfl⟩ := hop
  have hsound : Sound uuid op w.table := .of_nil hcreated hwritten
  obtain ⟨hrows, hQ⟩ := h w now r t' hi.1 hi.2 hans
  exact ⟨⟨(hans.change.chain hsound hi.1).1, hrows.trans hi.2⟩, trivial, hQ⟩

/-- A call that does not touch `k`. -/
theorem Leaves.untouched {op : RepoOp} (hcreated : op.created = []) (hwritten : op.written = [])
    (htouched : k ∉ op.touched) : Leaves uuid kms t k (Polykey.repo op) fun _ => True :=
  Leaves.repo hcreated hwritten fun _ _ _ _ _ _ hans =>
    ⟨hans.change.versionsOf htouched, fun _ _ => trivial⟩

end Leaves

end Polykey
