/-
# The world a service call runs in

The service, the rotation workers, the authorizer and the RPC handlers are actions over one
interface: repository calls, the KMS, the clock, random bytes, the audit log, the two channels of
the rotation pipeline and the policy cache.  This module says what each of those calls does to
the state of the process, the `World`.

* The clock never goes back, and advances by any amount between two calls.
* The KMS is a parameter: for each provider, which answers it can give.
* A repository call behaves as `PSQLAdapter.Answers` allows, so it may fail at any time.
* A receive on an empty channel and a send on a full one block: they have no step.
-/
import Polykey.Cache.Generic
import Polykey.Lib.Act
import Polykey.Persistence.PSQLAdapter

namespace Polykey

open Lib

/-! ## 1. The pipeline's messages and the audit log -/

/-- `pipelines.KeyRotationRequest`: the KMS provider by its name, the DEK pool by its size. -/
structure KeyRotationRequest where
  keyID : KeyID
  kmsProvider : String
  dekPool : Nat
  deriving DecidableEq, Repr

/-- `pipelines.KeyRotationResult`. -/
structure KeyRotationResult where
  keyID : KeyID
  rotatedKey : Except Err Key

/-- The channels' capacity, the queue depth that `NewKeyService` passes. -/
def queueDepth : Nat := 100

/-- The number of workers that `NewKeyService` passes. -/
def workerCount : Nat := 5

/-- What `AuditLogger.AuditLog` is called with; the decision id is always empty. -/
structure AuditEvent where
  clientIdentity : String
  operation : String
  keyID : String
  success : Bool
  error : Option String
  deriving DecidableEq, Repr

/-! ## 2. Calls -/

inductive EffectOp
  | repo (op : RepoOp)
  | encryptDEK (provider : String) (dek : Bytes) (key : Key)
  | decryptDEK (provider : String) (key : Key)
  | timeNow
  | newKeyID
  | randRead (n : Nat)
  | auditLog (event : AuditEvent)
  | enqueue (req : KeyRotationRequest)
  | awaitResult
  | takeRequest
  | sendResult (res : KeyRotationResult)
  | policyGet (key : String)
  | policySet (key : String) (value : Bool) (ttl : Duration)

@[reducible] def EffectOp.Res : EffectOp → Type
  | repo op => op.Answer
  | encryptDEK _ _ _ | decryptDEK _ _ | randRead _ => Except Err Bytes
  | timeNow => Time
  | newKeyID => KeyID
  | enqueue _ => Bool
  -- `none`: the caller's context is done first
  | awaitResult => Option KeyRotationResult
  | takeRequest => KeyRotationRequest
  | policyGet _ => Option Bool
  | auditLog _ | sendResult _ | policySet _ _ _ => Unit

/-- Is it a call of the repository? -/
def EffectOp.isRepo : EffectOp → Bool
  | repo _ => true
  | _ => false

@[reducible] def Effect : Interface := ⟨EffectOp, EffectOp.Res⟩

/-- An action of the service. -/
abbrev Svc (α : Type) : Type := Act Effect Err α

/-! ## 3. The world and its steps -/

structure World where
  table : Table
  requests : List KeyRotationRequest
  results : List KeyRotationResult
  policyCache : Cache String Bool
  audit : List AuditEvent
  clock : Time

/-- `kms.KMSProvider` by name: the answers `EncryptDEK` and `DecryptDEK` can give.  A decryption
always comes back, if only with an error. -/
structure KMS where
  encrypts : String → Bytes → Key → Except Err Bytes → Prop
  decrypts : String → Key → Except Err Bytes → Prop
  decrypts_total : ∀ provider key, ∃ r, decrypts provider key r

/-- What a call made at time `now` answers, and the world it leaves. -/
def stepAt (uuid : UUIDPkg) (kms : KMS) (now : Time) : Sem Effect World
  | .repo op, w, r, w' =>
    ∃ t', PSQLAdapter.Answers uuid now op w.table r t' ∧ w' = { w with table := t', clock := now }
  | .encryptDEK provider dek key, w, r, w' =>
    kms.encrypts provider dek key r ∧ w' = { w with clock := now }
  | .decryptDEK provider key, w, r, w' => kms.decrypts provider key r ∧ w' = { w with clock := now }
  | .timeNow, w, r, w' => r = now ∧ w' = { w with clock := now }
  | .newKeyID, w, _, w' => w' = { w with clock := now }
  | .randRead n, w, r, w' =>
    (∀ bytes, r = .ok bytes → bytes.length = n) ∧ w' = { w with clock := now }
  | .auditLog event, w, _, w' => w' = { w with audit := w.audit ++ [event], clock := now }
  | .enqueue req, w, r, w' =>
    if w.requests.length < queueDepth then
      r = true ∧ w' = { w with requests := w.requests ++ [req], clock := now }
    else r = false ∧ w' = { w with clock := now }
  | .awaitResult, w, r, w' =>
    (∃ res rest, w.results = res :: rest ∧ r = some res ∧
      w' = { w with results := rest, clock := now }) ∨
    r = none ∧ w' = { w with clock := now }
  | .takeRequest, w, r, w' =>
    ∃ rest, w.requests = r :: rest ∧ w' = { w with requests := rest, clock := now }
  | .sendResult res, w, _, w' =>
    w.results.length < queueDepth ∧ w' = { w with results := w.results ++ [res], clock := now }
  | .policyGet key, w, r, w' => r = w.policyCache.get now key ∧ w' = { w with clock := now }
  | .policySet key value ttl, w, _, w' =>
    w' = { w with policyCache := w.policyCache.set now key value ttl, clock := now }

/-- The world's steps: each call at a time not before the last one. -/
def worldSem (uuid : UUIDPkg) (kms : KMS) : Sem Effect World := fun op w r w' =>
  ∃ now, w.clock ≤ now ∧ stepAt uuid kms now op w r w'

/-! ## 4. The calls that may fail, as actions -/

def repo (op : RepoOp) : Svc op.Result := Act.tryCall (I := Effect) (.repo op) fun r => r

def encryptDEK (provider : String) (dek : Bytes) (key : Key) : Svc Bytes :=
  Act.tryCall (I := Effect) (.encryptDEK provider dek key) fun r => r

def decryptDEK (provider : String) (key : Key) : Svc Bytes :=
  Act.tryCall (I := Effect) (.decryptDEK provider key) fun r => r

def randRead (n : Nat) : Svc Bytes := Act.tryCall (I := Effect) (.randRead n) fun r => r

/-! ## 5. A repository that works -/

/-- A repository call of the given kind does what it is for. -/
def Works (uuid : UUIDPkg) (kind : RepoOp → Prop) (now : Time) :
    (op : EffectOp) → World → op.Res → World → Prop
  | .repo op, w, r, w' => kind op → PSQLAdapter.exec uuid now op w.table = (r, w'.table)
  | _, _, _, _ => True

/-- The world in which the repository calls of the given kind do not fail. -/
def workingSem (uuid : UUIDPkg) (kms : KMS) (kind : RepoOp → Prop) : Sem Effect World :=
  fun op w r w' => ∃ now, w.clock ≤ now ∧ stepAt uuid kms now op w r w' ∧
    Works uuid kind now op w r w'

theorem worldSem_of_working {uuid : UUIDPkg} {kms : KMS} {kind : RepoOp → Prop} (op : EffectOp)
    (w : World) (r : op.Res) (w' : World) (h : workingSem uuid kms kind op w r w') :
    worldSem uuid kms op w r w' := by
  obtain ⟨now, hnow, hstep, -⟩ := h
  exact ⟨now, hnow, hstep⟩

theorem runs_repo_working {uuid : UUIDPkg} {kms : KMS} {kind : RepoOp → Prop} {op : RepoOp}
    {w w' : World} {r : op.Answer} (hop : kind op)
    (h : Act.Runs (workingSem uuid kms kind) (repo op) w r w') :
    ∃ now, PSQLAdapter.exec uuid now op w.table = (r, w'.table) := by
  obtain ⟨x, ⟨now, -, -, hworks⟩, rfl⟩ := Act.runs_tryCall.mp h
  exact ⟨now, hworks hop⟩

/-- The calls that may never come back. -/
def EffectOp.mayBlock : EffectOp → Bool
  | encryptDEK _ _ _ | takeRequest | sendResult _ => true
  | _ => false

/-- All other calls can come back at once. -/
theorem workingSem_returns (uuid : UUIDPkg) (kms : KMS) (kind : RepoOp → Prop) {op : EffectOp}
    (hop : op.mayBlock = false) (w : World) : ∃ r w', workingSem uuid kms kind op w r w' := by
  cases op with
  | repo op => exact ⟨_, _, w.clock, le_rfl, ⟨_, .inl rfl, rfl⟩, fun _ => rfl⟩
  | encryptDEK _ _ _ | takeRequest | sendResult _ => cases hop
  | decryptDEK provider key =>
    obtain ⟨r, hr⟩ := kms.decrypts_total provider key
    exact ⟨r, _, w.clock, le_rfl, ⟨hr, rfl⟩, trivial⟩
  | timeNow => exact ⟨_, _, w.clock, le_rfl, ⟨rfl, rfl⟩, trivial⟩
  | newKeyID => exact ⟨.nil, _, w.clock, le_rfl, rfl, trivial⟩
  | randRead n =>
    have hread : ∀ bytes : Bytes, (Except.error Err.nilPointer : Except Err Bytes) = .ok bytes →
        bytes.length = n := fun _ hbytes => by cases hbytes
    exact ⟨.error .nilPointer, _, w.clock, le_rfl, ⟨hread, rfl⟩, trivial⟩
  | auditLog event => exact ⟨(), _, w.clock, le_rfl, rfl, trivial⟩
  | enqueue req =>
    by_cases hroom : w.requests.length < queueDepth
    · exact ⟨true, { w with requests := w.requests ++ [req] }, w.clock, le_rfl,
        by simp [stepAt, hroom], trivial⟩
    · exact ⟨false, w, w.clock, le_rfl, by simp [stepAt, hroom], trivial⟩
  | awaitResult => exact ⟨none, _, w.clock, le_rfl, .inr ⟨rfl, rfl⟩, trivial⟩
  | policyGet key => exact ⟨_, _, w.clock, le_rfl, ⟨rfl, rfl⟩, trivial⟩
  | policySet key value ttl => exact ⟨(), _, w.clock, le_rfl, rfl, trivial⟩

theorem worldSem_returns (uuid : UUIDPkg) (kms : KMS) {op : EffectOp} (hop : op.mayBlock = false)
    (w : World) : ∃ r w', worldSem uuid kms op w r w' := by
  obtain ⟨r, w', h⟩ := workingSem_returns uuid kms (fun _ => False) hop w
  exact ⟨r, w', worldSem_of_working op w r w' h⟩

end Polykey
