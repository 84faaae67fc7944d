/-
# Writing keys: `key_creator.go`, `key_manager.go` and the rotation workers

The eight writing methods of the service and the worker of `pipelines/key_rotation.go`.

A single rotation goes through the pipeline: the caller enqueues a request and takes whatever
result comes next, a worker does the rotation.  A batch rotates in the goroutines of the batch
processor, without the pipeline.  A metadata update reads the latest row in one repository call
and writes the metadata back to whatever row is newest in another.
-/
import Polykey.Service.KeyService

namespace Polykey

open Lib

namespace KeyService

/-! ## 1. Creating -/

/-- The key that `createKeyObject` builds, before its DEK is encrypted. -/
def newKey (s : KeyService) (item : CreateKeyItem) (clientIdentity : String)
    (storageProfile : StorageProfile) (keyID : KeyID) (now : Time) (description : String) :
    Key where
  id := keyID
  version := 1
  status := .active
  createdAt := now
  updatedAt := now
  revokedAt := none
  encryptedDEK := []
  metadata := some {
    keyId := keyID.string s.uuid
    keyType := item.keyType
    status := .active
    version := 1
    createdAt := some now
    updatedAt := some now
    expiresAt := item.expiresAt
    lastAccessedAt := none
    creatorIdentity := clientIdentity
    authorizedContexts := item.initialAuthorizedContexts
    accessPolicies := item.accessPolicies
    description := description
    tags := item.tags
    dataClassification := item.dataClassification
    metadataChecksum := ""
    accessCount := 0
    storageType := storageProfile }

/-- `keyServiceImpl.createKeyObject`. -/
def createKeyObject (s : KeyService) (item : CreateKeyItem) (clientIdentity : String)
    (storageProfile : StorageProfile) : Svc Key := do
  let description ← Act.ofExcept ((newDescription item.description).mapError
    (Err.wrap₂ (.of .errInvalidInput)))
  let size ← Act.ofExcept (dekPool item.keyType)
  let dek ← Act.mapError (Err.wrap₂ (.of .errKeyGenerationFail)) (randRead size)
  let keyID ← Act.call (I := Effect) .newKeyID
  let now ← Act.call (I := Effect) .timeNow
  let provider ← Act.ofExcept (s.getKMSProvider storageProfile)
  let key := s.newKey item clientIdentity storageProfile keyID now description
  let encryptedDEK ← Act.mapError (Err.wrap "failed to encrypt DEK: ")
    (encryptDEK provider dek key)
  pure { key with encryptedDEK := encryptedDEK }

/-- The profile a requester's keys are stored under. -/
def profileOf (rc : Option RequesterContext) : StorageProfile :=
  getStorageProfileForTier (fromProtoTier (rc.elim (.other 0) (·.clientTier)))

/-- `keyServiceImpl.CreateKey`. -/
def createKey (s : KeyService) (req : CreateKeyRequest) : Svc CreateKeyResponse :=
  if !hasIdentity req.requesterContext then Act.throw (.of .errInvalidInput)
  else do
    let details ← Act.ofExcept ((getCryptoDetails req.item.keyType).mapError
      (Err.wrap₂ (.of .errInvalidInput)))
    let key ← s.createKeyObject req.item (identityOf req.requesterContext)
      (profileOf req.requesterContext)
    Act.mapError (Err.wrap "failed to create key: ") (repo (.createKey (some key)))
    let now ← Act.call (I := Effect) .timeNow
    pure {
      keyId := key.id.string s.uuid
      metadata := key.metadata
      keyMaterial := ⟨key.encryptedDEK, details.2, "sha256"⟩
      responseTimestamp := now }

/-- `Validate` of the `BatchCreateKeys` processor. -/
def validateCreate (item : CreateKeyItem) : Except Err Unit :=
  match getCryptoDetails item.keyType with
  | .error e => .error (.wrap₂ (.of .errInvalidInput) e)
  | .ok _ =>
    match newDescription item.description with
    | .error e => .error (.wrap₂ (.of .errInvalidInput) e)
    | .ok _ => .ok ()

/-- The keys among the outcomes of a batch. -/
def createdKeys (items : List (Except Err Key)) : List Key := items.filterMap (·.toOption)

/-- `keyServiceImpl.BatchCreateKeys`. -/
def batchCreateKeys (s : KeyService) (req : BatchCreateKeysRequest) :
    Svc (List (Except String CreatedKey)) :=
  if !hasIdentity req.requesterContext then Act.throw (.of .errInvalidInput)
  else do
    let items ← processBatch validateCreate (fun item => s.createKeyObject item
      (identityOf req.requesterContext) (profileOf req.requesterContext)) req.keys
    Act.mapError (Err.wrap "failed to create keys in batch: ")
      (repo (.createBatchKeys (createdKeys items)))
    pure (items.map fun r =>
      (r.mapError Err.text).map fun key => ⟨key.id.string s.uuid, key.metadata⟩)

/-! ## 2. Rotating -/

/-- `KeyRotationPipeline.processRotation`. -/
def pipelineRotation (req : KeyRotationRequest) : Svc Key := do
  let currentKey ← Act.mapError (Err.wrap "failed to get current key: ")
    (repo (.getKey req.keyID))
  let newDEK ← Act.mapError (Err.wrap "failed to generate new DEK: ") (randRead req.dekPool)
  let encryptedNewDEK ← Act.mapError (Err.wrap "failed to encrypt new DEK: ")
    (encryptDEK req.kmsProvider newDEK currentKey)
  Act.mapError (Err.wrap "failed to rotate key: ") (repo (.rotateKey req.keyID encryptedNewDEK))

/-- One turn of `KeyRotationPipeline.worker`: take a request, rotate, send the result. -/
def workerTurn : Svc Unit := do
  let req ← Act.call (I := Effect) .takeRequest
  let rotatedKey ← Act.attempt (pipelineRotation req)
  Act.call (I := Effect) (.sendResult ⟨req.keyID, rotatedKey⟩)

/-- `keyServiceImpl.processRotation`: the current key and the rotated one. -/
def processRotation (s : KeyService) (keyID : KeyID) : Svc (Key × Key) := do
  let currentKey ← Act.mapError (Err.wrap "failed to get current key: ") (repo (.getKey keyID))
  let provider ← Act.ofExcept (s.getKMSProvider (Key.storageType currentKey))
  let size ← Act.ofExcept (dekPool (Key.keyType currentKey))
  let newDEK ← Act.mapError (Err.wrap "failed to generate new DEK: ") (randRead size)
  let encryptedNewDEK ← Act.mapError (Err.wrap "failed to encrypt new DEK: ")
    (encryptDEK provider newDEK currentKey)
  let rotatedKey ← Act.mapError (Err.wrap "failed to rotate key: ")
    (repo (.rotateKey keyID encryptedNewDEK))
  pure (currentKey, rotatedKey)

/-- The response of a rotation. -/
def rotationResponse (item : RotateKeyItem) (currentKey rotatedKey : Key) (now : Time) :
    RotateKeyResponse where
  keyId := item.keyId
  newVersion := rotatedKey.version
  previousVersion := currentKey.version
  newKeyMaterial := ⟨rotatedKey.encryptedDEK, "AES-256-GCM", "sha256"⟩
  metadata := rotatedKey.metadata
  rotationTimestamp := now
  oldVersionExpiresAt := now + item.gracePeriodSeconds * second

/-- The first half of `RotateKey`, up to `Enqueue`: the current key and the request. -/
def rotationRequest (s : KeyService) (item : RotateKeyItem) : Svc (Key × KeyRotationRequest) := do
  let keyID ← Act.ofExcept (keyIDFromString s.uuid item.keyId)
  let currentKey ← Act.mapError (Err.wrap "failed to get current key for rotation: ")
    (repo (.getKey keyID))
  let provider ← Act.ofExcept (s.getKMSProvider (Key.storageType currentKey))
  let size ← Act.ofExcept (dekPool (Key.keyType currentKey))
  pure (currentKey, ⟨keyID, provider, size⟩)

/-- `keyServiceImpl.RotateKey`.  The result it takes is the next one in the channel. -/
def rotateKey (s : KeyService) (req : RotateKeyRequest) : Svc RotateKeyResponse := do
  let (currentKey, rotationReq) ← s.rotationRequest req.item
  let accepted ← Act.call (I := Effect) (.enqueue rotationReq)
  if !accepted then Act.throw (.new ("rpc error: code = ResourceExhausted desc = " ++
    "key rotation queue is full, please try again later"))
  else do
    let received ← Act.call (I := Effect) .awaitResult
    match received with
    | none => Act.throw (.of .contextCanceled)
    | some result =>
      match result.rotatedKey with
      | .error e => Act.throw e
      | .ok rotatedKey => do
        let now ← Act.call (I := Effect) .timeNow
        pure (rotationResponse req.item currentKey rotatedKey now)

/-- `Process` of the `BatchRotateKeys` processor. -/
def rotateItem (s : KeyService) (item : RotateKeyItem) : Svc RotateKeyResponse := do
  let keyID ← Act.ofExcept (keyIDFromString s.uuid item.keyId)
  let (currentKey, rotatedKey) ← s.processRotation keyID
  let now ← Act.call (I := Effect) .timeNow
  pure (rotationResponse item currentKey rotatedKey now)

/-- `Validate` of the `BatchRotateKeys` processor. -/
def validateRotate (s : KeyService) (item : RotateKeyItem) : Except Err Unit :=
  (keyIDFromString s.uuid item.keyId).map fun _ => ()

/-- `keyServiceImpl.BatchRotateKeys`. -/
def batchRotateKeys (s : KeyService) (req : BatchRotateKeysRequest) :
    Svc (BatchResponse RotateKeyResponse) :=
  if !hasIdentity req.requesterContext then Act.throw (.of .errInvalidRequest)
  else do
    let items ← processBatch s.validateRotate s.rotateItem req.keys
    let now ← Act.call (I := Effect) .timeNow
    pure (batchResponse (req.keys.map (·.keyId)) items now)

/-! ## 3. Revoking -/

/-- `keyServiceImpl.RevokeKey`. -/
def revokeKey (s : KeyService) (req : RevokeKeyRequest) : Svc Unit := do
  let keyID ← Act.ofExcept (keyIDFromString s.uuid req.keyId)
  Act.mapError (Err.wrap "failed to revoke key: ") (repo (.revokeKey keyID))

/-- What the first loop of `BatchRevokeKeys` has collected. -/
structure RevokeItems where
  keyIDs : List KeyID
  seen : List String
  failed : List (ItemResult Unit)

/-- One turn of that loop: `keyIDMap` is keyed by the text of the item. -/
def RevokeItems.add (s : KeyService) (items : RevokeItems) (keyId : String) : RevokeItems :=
  match keyIDFromString s.uuid keyId with
  | .error e => { items with failed := items.failed ++ [⟨keyId, .error e.text⟩] }
  | .ok id =>
    if keyId ∈ items.seen then items
    else { items with keyIDs := items.keyIDs ++ [id], seen := keyId :: items.seen }

/-- `BatchRevokeKeys` from the repository call on. -/
def revokeItems (s : KeyService) (req : BatchRevokeKeysRequest) : Svc (BatchResponse Unit) := do
  let items := req.keys.foldl (RevokeItems.add s) ⟨[], [], []⟩
  let revoked ← Act.attempt (repo (.revokeBatchKeys items.keyIDs))
  match revoked with
  | .error e =>
    if !req.continueOnError then
      Act.throw (e.wrap "failed to revoke batch keys from repository: ")
    else do
      let now ← Act.call (I := Effect) .timeNow
      let results := items.failed ++
        items.keyIDs.map fun id => ⟨id.string s.uuid, .error e.text⟩
      pure ⟨results, now, 0, results.length⟩
  | .ok _ => do
    let now ← Act.call (I := Effect) .timeNow
    pure ⟨items.failed ++ items.keyIDs.map fun id => ⟨id.string s.uuid, .ok ()⟩, now,
      items.keyIDs.length, items.failed.length⟩

/-- `keyServiceImpl.BatchRevokeKeys`. -/
def batchRevokeKeys (s : KeyService) (req : BatchRevokeKeysRequest) : Svc (BatchResponse Unit) :=
  if !hasIdentity req.requesterContext then Act.throw (.of .errInvalidRequest)
  else
    match s.firstInvalid req.keys, req.continueOnError with
    | some e, false => Act.throw (e.wrap "invalid key ID in batch request: ")
    | _, _ => s.revokeItems req

/-! ## 4. Updating metadata -/

/-- `maps.Copy(dst, src)`. -/
def mapsCopy (dst src : StringMap) : StringMap := src ∪ dst

theorem lookup_mapsCopy_eq (dst src : StringMap) (k : String) :
    (mapsCopy dst src).lookup k = ((src.lookup k).map some).getD (dst.lookup k) := by
  unfold mapsCopy
  by_cases hk : k ∈ src
  · obtain ⟨v, hv⟩ := Finmap.mem_iff.mp hk
    rw [Finmap.lookup_union_left hk, hv]
    rfl
  · rw [Finmap.lookup_union_right hk, Finmap.lookup_eq_none.mpr hk]
    rfl

/-- The edits that `UpdateKeyMetadata` and the loop of `BatchUpdateKeyMetadata` share, the
description being already checked. -/
def applyChanges (item : UpdateKeyMetadataItem) (description : Option String)
    (m : KeyMetadata) : KeyMetadata :=
  { m with
    description := description.getD m.description
    expiresAt := item.expiresAt.orElse fun _ => m.expiresAt
    dataClassification := item.dataClassification.getD m.dataClassification
    tags := item.tagsToRemove.foldl (fun tags tag => tags.erase tag)
      (mapsCopy m.tags item.tagsToAdd) }

theorem lookup_foldl_erase (k : String) (removed : List String) (tags : StringMap) :
    (removed.foldl (fun tags tag => tags.erase tag) tags).lookup k =
      if k ∈ removed then none else tags.lookup k := by
  induction removed generalizing tags with
  | nil => simp
  | cons tag removed ih =>
    rw [List.foldl_cons, ih]
    by_cases hk : k = tag
    · subst hk
      simp
    · simp [hk, Finmap.lookup_erase_ne hk]

theorem keys_foldl_erase (removed : List String) (tags : StringMap) :
    (removed.foldl (fun tags tag => tags.erase tag) tags).keys =
      tags.keys \ removed.toFinset := by
  ext k
  rw [Finmap.mem_keys, ← Finmap.lookup_isSome, lookup_foldl_erase, Finset.mem_sdiff,
    List.mem_toFinset, Finmap.mem_keys, ← Finmap.lookup_isSome]
  split <;> simp [*]

/-- The description of an update, if it has one. -/
def checkDescription (item : UpdateKeyMetadataItem) : Except Err (Option String) :=
  match item.description with
  | none => .ok none
  | some text => (newDescription text).map some

/-- `keyServiceImpl.UpdateKeyMetadata`. -/
def updateKeyMetadata (s : KeyService) (req : UpdateKeyMetadataRequest) : Svc Unit := do
  let keyID ← Act.ofExcept (keyIDFromString s.uuid req.item.keyId)
  let key ← Act.mapError (Err.wrap "failed to get key: ") (repo (.getKey keyID))
  let description ← Act.ofExcept (checkDescription req.item)
  match Key.metadata key with
  | none => Act.throw .nilPointer
  | some m => do
    let now ← Act.call (I := Effect) .timeNow
    Act.mapError (Err.wrap "failed to update metadata: ") (repo (.updateKeyMetadata keyID
      (some { applyChanges req.item description m with updatedAt := some now })))

/-- The edits of one item of `BatchUpdateKeyMetadata`: those of a single update and the
policies. -/
def applyItem (item : UpdateKeyMetadataItem) (description : Option String) (now : Time)
    (key : Key) (m : KeyMetadata) : Key :=
  let edited := applyChanges item description m
  { key with
    metadata := some { edited with
      accessPolicies := mapsCopy m.accessPolicies item.policiesToUpdate
      updatedAt := some now }
    updatedAt := now }

/-- One turn of the loop of `BatchUpdateKeyMetadata`: the key to update, or the text the item is
reported with and the error the whole request fails with when it may not go on. -/
def updateItem (s : KeyService) (item : UpdateKeyMetadataItem) :
    Svc (Except (String × Err) Key) :=
  match keyIDFromString s.uuid item.keyId with
  | .error e => pure (.error (e.text, e.wrap "invalid key ID in batch request: "))
  | .ok keyID => do
    let current ← Act.attempt (repo (.getKey keyID))
    match current with
    | .error e =>
      let e' := Err.wrap "failed to get key for update: " e
      pure (.error (e'.text, e'))
    | .ok key =>
      match checkDescription item with
      | .error e =>
        let e' := e.wrap "invalid description: "
        pure (.error (e'.text, e'))
      | .ok description =>
        match Key.metadata key with
        | none => Act.throw .nilPointer
        | some m => do
          let now ← Act.call (I := Effect) .timeNow
          pure (.ok (applyItem item description now key m))

/-- The loop of `BatchUpdateKeyMetadata`: the keys to update, and the results of the items that
failed.  With `continueOnError` off the first failure ends it. -/
def updateLoop (s : KeyService) (continueOnError : Bool) :
    List UpdateKeyMetadataItem → Svc (List Key × List (ItemResult Unit))
  | [] => pure ([], [])
  | item :: items => do
    let r ← s.updateItem item
    match r with
    | .error (text, e) =>
      if !continueOnError then Act.throw e
      else do
        let (keys, failed) ← s.updateLoop continueOnError items
        pure (keys, ⟨item.keyId, .error text⟩ :: failed)
    | .ok key => do
      let (keys, failed) ← s.updateLoop continueOnError items
      pure (key :: keys, failed)

/-- `keyServiceImpl.BatchUpdateKeyMetadata`.  When the repository call succeeds every item is
reported as a success, also those that failed before. -/
def batchUpdateKeyMetadata (s : KeyService) (req : BatchUpdateKeyMetadataRequest) :
    Svc (BatchResponse Unit) :=
  if !hasIdentity req.requesterContext then Act.throw (.of .errInvalidRequest)
  else do
    let (keysToUpdate, failed) ← s.updateLoop req.continueOnError req.keys
    let updated ← Act.attempt (repo (.updateBatchKeyMetadata keysToUpdate))
    match updated with
    | .error e =>
      if !req.continueOnError then
        Act.throw (e.wrap "failed to update batch key metadata in repository: ")
      else do
        let now ← Act.call (I := Effect) .timeNow
        pure ⟨failed ++ req.keys.map fun item => ⟨item.keyId, .error e.text⟩, now, 0,
          failed.length + req.keys.length⟩
    | .ok _ => do
      let now ← Act.call (I := Effect) .timeNow
      pure ⟨failed ++ req.keys.map fun item => ⟨item.keyId, .ok ()⟩, now, req.keys.length,
        failed.length⟩

end KeyService

end Polykey
