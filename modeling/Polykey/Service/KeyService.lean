/-
# The key service: messages and shared parts

The protobuf messages the service reads and answers with, the parts of `keyServiceImpl` that all
its methods use, and the batch processor.

A request is never nil here: the gRPC server decodes every request into a message.  Fields that
no method of the service reads are left out, except those of a metadata update, whose being left
unread is itself of interest.
-/
import Polykey.Service.World

namespace Polykey

open Lib

/-! ## 1. Messages -/

/-- `pk.RequesterContext`. -/
structure RequesterContext where
  clientIdentity : String
  clientTier : ClientTier
  deriving DecidableEq, Repr

/-- `GetRequesterContext().GetClientIdentity()`, which is nil-safe. -/
def identityOf (rc : Option RequesterContext) : String := rc.elim "" (·.clientIdentity)

/-- `RequesterContext != nil && GetClientIdentity() != ""`, the check of the batch methods. -/
def hasIdentity (rc : Option RequesterContext) : Bool := rc.any fun c => c.clientIdentity != ""

/-- `pk.KeyMaterial`. -/
structure KeyMaterial where
  encryptedKeyData : Bytes
  encryptionAlgorithm : String
  keyChecksum : String
  deriving DecidableEq, Repr

structure GetKeyRequest where
  keyId : String
  version : Int
  skipMetadata : Bool
  requesterContext : Option RequesterContext

structure GetKeyResponse where
  keyMaterial : KeyMaterial
  metadata : Option KeyMetadata
  responseTimestamp : Time
  deriving DecidableEq

structure GetKeyMetadataRequest where
  keyId : String
  version : Int
  requesterContext : Option RequesterContext

structure GetKeyMetadataResponse where
  metadata : Option KeyMetadata
  responseTimestamp : Time

structure KeyRequestItem where
  keyId : String
  version : Int
  skipMetadata : Bool

/-- `pk.BatchGetKeysRequest` and `pk.BatchGetKeyMetadataRequest`. -/
structure BatchGetRequest where
  keys : List KeyRequestItem
  continueOnError : Bool
  requesterContext : Option RequesterContext

/-- The result of one item of a batch: the id it is reported under, and a success or an error
text. -/
structure ItemResult (α : Type) where
  keyId : String
  result : Except String α

/-- A batch response. -/
structure BatchResponse (α : Type) where
  results : List (ItemResult α)
  responseTimestamp : Time
  successfulCount : Nat
  failedCount : Nat

structure ListKeysRequest where
  pageToken : String
  pageSize : Int
  requesterContext : Option RequesterContext

structure ListKeysResponse where
  keys : List (Option KeyMetadata)
  nextPageToken : String
  responseTimestamp : Time

/-- `pk.CreateKeyItem`; `GetExpiresAt` is a pointer, the maps and lists may be empty. -/
structure CreateKeyItem where
  keyType : KeyType
  description : String
  tags : StringMap
  expiresAt : Option Time
  initialAuthorizedContexts : List String
  accessPolicies : StringMap
  dataClassification : String

structure CreateKeyRequest where
  item : CreateKeyItem
  requesterContext : Option RequesterContext

structure CreateKeyResponse where
  keyId : String
  metadata : Option KeyMetadata
  keyMaterial : KeyMaterial
  responseTimestamp : Time

structure BatchCreateKeysRequest where
  keys : List CreateKeyItem
  continueOnError : Bool
  requesterContext : Option RequesterContext

/-- The success of one item: the id and the metadata, and no material. -/
structure CreatedKey where
  keyId : String
  metadata : Option KeyMetadata

/-- `pk.RotateKeyItem`. -/
structure RotateKeyItem where
  keyId : String
  gracePeriodSeconds : Int

structure RotateKeyRequest where
  item : RotateKeyItem
  requesterContext : Option RequesterContext

structure RotateKeyResponse where
  keyId : String
  newVersion : Int
  previousVersion : Int
  newKeyMaterial : KeyMaterial
  metadata : Option KeyMetadata
  rotationTimestamp : Time
  oldVersionExpiresAt : Time

structure BatchRotateKeysRequest where
  keys : List RotateKeyItem
  continueOnError : Bool
  requesterContext : Option RequesterContext

structure RevokeKeyRequest where
  keyId : String
  requesterContext : Option RequesterContext

structure BatchRevokeKeysRequest where
  keys : List String
  continueOnError : Bool
  requesterContext : Option RequesterContext

/-- `pk.UpdateKeyMetadataItem`.  No method reads the two lists of contexts, and
`UpdateKeyMetadata` does not read the policies. -/
structure UpdateKeyMetadataItem where
  keyId : String
  description : Option String
  expiresAt : Option Time
  dataClassification : Option String
  tagsToAdd : StringMap
  tagsToRemove : List String
  policiesToUpdate : StringMap
  contextsToAdd : List String
  contextsToRemove : List String

structure UpdateKeyMetadataRequest where
  item : UpdateKeyMetadataItem
  requesterContext : Option RequesterContext

structure BatchUpdateKeyMetadataRequest where
  keys : List UpdateKeyMetadataItem
  continueOnError : Bool
  requesterContext : Option RequesterContext

/-! ## 2. The service -/

/-- What `keyServiceImpl` is configured with, and the functions it uses of the standard library:
SHA-256 in hexadecimal, and the RFC 3339 text of a time. -/
structure KeyService where
  uuid : UUIDPkg
  defaultKMSProvider : String
  kmsProviders : List String
  sum256 : Bytes → String
  formatTime : Time → String
  parseTime : String → Option Time

/-- `keyServiceImpl.getKMSProvider`, as the provider's name. -/
def KeyService.getKMSProvider (s : KeyService) (profile : StorageProfile) : Except Err String :=
  let providerName := if profile = .hardened then "aws" else s.defaultKMSProvider
  if providerName ∈ s.kmsProviders then .ok providerName
  else .error (.new (providerName ++ " kms provider not found"))

/-- `crypto.GetCryptoDetails`. -/
def getCryptoDetails (keyType : KeyType) : Except Err (Nat × String) :=
  if keyType = .aes256 then .ok (32, "AES-256-GCM")
  else .error (.detail .cryptoErrInvalidKeyType keyType.string)

/-- The DEK pools `NewKeyService` makes, as the size of the DEKs they hold: one pool, for the key
type whose details it asks for. -/
def dekPools (keyType : KeyType) : Option Nat :=
  match getCryptoDetails .aes256 with
  | .ok (size, _) => if keyType = .aes256 then some size else none
  | .error _ => none

/-- The lookup of a pool, with the error of the methods that need one. -/
def dekPool (keyType : KeyType) : Except Err Nat :=
  match dekPools keyType with
  | some size => .ok size
  | none => .error (.detail .errInvalidKeyType "unsupported key type for pooling")

/-- `keyServiceImpl.getKeyByRequest`. -/
def getKeyByRequest (keyID : KeyID) (version : Int) : Svc Key :=
  Act.mapError (fun e => if e.is .psqlErrKeyNotFound then .of .errKeyNotFound else e)
    (if 0 < version then repo (.getKeyByVersion keyID version) else repo (.getKey keyID))

/-! ## 3. Batches -/

/-- One goroutine of `ProcessBatch`: an item that is not valid is not processed. -/
def processItem {α β : Type} (validate : α → Except Err Unit) (process : α → Svc β) (a : α) :
    Svc (Except Err β) :=
  match validate a with
  | .error e => pure (.error e)
  | .ok () => Act.attempt (process a)

/-- `BatchProcessor.ProcessBatch`, on the schedule that takes the items in order.  It stores
each outcome at its item's place and never fails, whatever `continueOnError` is. -/
def processBatch {α β : Type} (validate : α → Except Err Unit) (process : α → Svc β) :
    List α → Svc (List (Except Err β))
  | [] => pure []
  | a :: as => do
    let r ← processItem validate process a
    let rs ← processBatch validate process as
    pure (r :: rs)

/-- What is known of the value of an item processed is known of it at the end of the batch. -/
theorem spec_processBatch {σ : Type} {D : Discipline Effect σ} {α β : Type} {K : α → β → σ → Prop}
    (hK : ∀ a b w w', D.rely w w' → K a b w → K a b w') {validate : α → Except Err Unit}
    {process : α → Svc β} {as : List α}
    (h : ∀ a ∈ as, Act.Spec D (fun _ => True) (process a) (K a)) :
    Act.Spec D (fun _ => True) (processBatch validate process as) fun rs w =>
      ∀ r ∈ rs, ∀ b, r = .ok b → ∃ a ∈ as, K a b w := by
  induction as with
  | nil =>
    refine Act.Spec.pure fun _ _ r hr => ?_
    cases hr
  | cons a as ih =>
    have hitem : Act.Spec D (fun _ => True) (processItem validate process a) fun r w =>
        ∀ b, r = .ok b → K a b w := by
      unfold processItem
      split
      · refine Act.Spec.pure fun _ _ b hb => ?_
        cases hb
      · exact (h a (by simp)).attempt
    refine hitem.bind fun r => ?_
    have hrest := Act.Spec.frame (F := fun w => ∀ b, r = .ok b → K a b w)
      (fun w w' hR hr b hb => hK a b w w' hR (hr b hb)) (ih fun a' ha' => h a' (by simp [ha']))
    refine (hrest.pre fun w hw => ⟨trivial, hw⟩).bind fun rs => ?_
    refine Act.Spec.pure fun w hw r' hr' b hb => ?_
    rcases List.mem_cons.mp hr' with rfl | hr'
    · exact ⟨a, by simp, hw.2 b hb⟩
    · obtain ⟨a', ha', hKb⟩ := hw.1 r' hr' b hb
      exact ⟨a', by simp [ha'], hKb⟩

/-- The first text among the items that is no id, as the error of parsing it. -/
def KeyService.firstInvalid (s : KeyService) : List String → Option Err
  | [] => none
  | keyId :: keyIds =>
    match keyIDFromString s.uuid keyId with
    | .error e => some e
    | .ok _ => s.firstInvalid keyIds

/-- The response of the batch methods that report one result per item. -/
def batchResponse {α : Type} (keyIds : List String) (items : List (Except Err α)) (now : Time) :
    BatchResponse α where
  results := List.zipWith (fun keyId r => ⟨keyId, r.mapError Err.text⟩) keyIds items
  responseTimestamp := now
  successfulCount := items.countP (·.isOk)
  failedCount := items.countP fun r => !r.isOk

end Polykey
