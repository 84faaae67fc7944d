/-
# Reading keys: `key_retriever.go` and `key_lister.go`

The five reading methods of the service.  `GetKey` and an item of `BatchGetKeys` end alike, with
the DEK decrypted, its checksum taken and the response built; that part is `deliver`.  What comes
before it is not alike: `GetKey` asks the repository for one row and looks at its status, a batch
folds all rows of all its ids into a map and looks the item up by the text the caller sent.
-/
import Polykey.Service.KeyService

namespace Polykey

open Lib

namespace KeyService

/-! ## 1. Single reads -/

/-- From the choice of the KMS provider on, `GetKey` and the items of `BatchGetKeys` agree. -/
def deliver (s : KeyService) (identity operation : String) (key : Key) (skipMetadata : Bool) :
    Svc GetKeyResponse := do
  let provider ← Act.ofExcept ((s.getKMSProvider key.storageType).mapError
    (Err.wrap "failed to get KMS provider: "))
  let decrypted ← Act.attempt (decryptDEK provider key)
  match decrypted with
  | .error e => do
    Act.call (I := Effect)
      (.auditLog ⟨identity, operation, key.id.string s.uuid, false, some e.text⟩)
    Act.throw (.wrap₂ (.of .errKMSFailure) e)
  | .ok dek => do
    let details ← Act.ofExcept (getCryptoDetails key.keyType)
    let now ← Act.call (I := Effect) .timeNow
    Act.call (I := Effect) (.auditLog ⟨identity, operation, key.id.string s.uuid, true, none⟩)
    pure {
      keyMaterial := {
        encryptedKeyData := key.encryptedDEK
        encryptionAlgorithm := details.2
        keyChecksum := s.sum256 dek }
      metadata := if skipMetadata then none else key.metadata
      responseTimestamp := now }

/-- `keyServiceImpl.GetKey`. -/
def getKey (s : KeyService) (req : GetKeyRequest) : Svc GetKeyResponse := do
  let keyID ← Act.ofExcept ((keyIDFromString s.uuid req.keyId).mapError
    (Err.wrap₂ (.of .errInvalidInput)))
  let key ← getKeyByRequest keyID req.version
  if key.status = .revoked then Act.throw (.of .errKeyRevoked)
  else if key.metadata = none then Act.throw (.of .errMissingMetadata)
  else s.deliver (identityOf req.requesterContext) "GetKey" key req.skipMetadata

/-- `keyServiceImpl.GetKeyMetadata`.  The log line after the audit reads the version through the
metadata pointer. -/
def getKeyMetadata (s : KeyService) (req : GetKeyMetadataRequest) :
    Svc GetKeyMetadataResponse := do
  let keyID ← Act.ofExcept ((keyIDFromString s.uuid req.keyId).mapError
    (Err.wrap₂ (.of .errInvalidInput)))
  let metadata ← (if 0 < req.version then repo (.getKeyMetadataByVersion keyID req.version)
    else repo (.getKeyMetadata keyID) : Svc (Option KeyMetadata))
  let now ← Act.call (I := Effect) .timeNow
  Act.call (I := Effect) (.auditLog
    ⟨identityOf req.requesterContext, "GetKeyMetadata", keyID.string s.uuid, true, none⟩)
  match metadata with
  | none => Act.throw .nilPointer
  | some m => pure ⟨some m, now⟩

/-! ## 2. Batches -/

/-- The ids of a `BatchGetKeys` request; the first text that is no id fails them all. -/
def parseAll (s : KeyService) : List KeyRequestItem → Except Err (List KeyID)
  | [] => .ok []
  | item :: items =>
    match keyIDFromString s.uuid item.keyId with
    | .error e => .error (e.wrap "invalid key ID in batch request: ")
    | .ok id => (s.parseAll items).map (id :: ·)

/-- `keyMap`: the keys by the text of their id; a later one replaces an earlier one. -/
def keyMap (s : KeyService) (keys : List Key) : AList (fun _ : String => Key) :=
  keys.foldl (fun m k => m.insert (k.id.string s.uuid) k) ∅

/-- `Validate` of the `BatchGetKeys` processor. -/
def validateGet (keyMap : AList fun _ : String => Key) (item : KeyRequestItem) :
    Except Err Unit :=
  match keyMap.lookup item.keyId with
  | none => .error (.new ("key not found: " ++ item.keyId))
  | some _ => .ok ()

/-- `Process` of the `BatchGetKeys` processor. -/
def processGet (s : KeyService) (identity : String) (keyMap : AList fun _ : String => Key)
    (item : KeyRequestItem) : Svc GetKeyResponse :=
  match keyMap.lookup item.keyId with
  | none => Act.throw .nilPointer
  | some key => s.deliver identity "BatchGetKeys" key item.skipMetadata

/-- `keyServiceImpl.BatchGetKeys`. -/
def batchGetKeys (s : KeyService) (req : BatchGetRequest) : Svc (BatchResponse GetKeyResponse) :=
  if !hasIdentity req.requesterContext then Act.throw (.of .errInvalidInput)
  else do
    let keyIDs ← Act.ofExcept (s.parseAll req.keys)
    let keys ← Act.mapError (Err.wrap "failed to retrieve batch keys from repository: ")
      (repo (.getBatchKeys keyIDs))
    let keyMap := s.keyMap keys
    let items ← processBatch (validateGet keyMap)
      (s.processGet (identityOf req.requesterContext) keyMap) req.keys
    let now ← Act.call (I := Effect) .timeNow
    pure (batchResponse (req.keys.map (·.keyId)) items now)

/-- The error results of the items whose text is no id. -/
def invalidItems (s : KeyService) {α : Type} (keyIds : List String) : List (ItemResult α) :=
  keyIds.filterMap fun keyId =>
    match keyIDFromString s.uuid keyId with
    | .error e => some ⟨keyId, .error e.text⟩
    | .ok _ => none

/-- `keyIDs` of `BatchGetKeyMetadata`: an item whose text is no id leaves the zero id. -/
def idsOrZero (s : KeyService) (items : List KeyRequestItem) : List KeyID :=
  items.map fun item => ((keyIDFromString s.uuid item.keyId).toOption).getD .nil

/-- `metadataMap`: the metadata by the id it names itself; a later one replaces an earlier. -/
def metadataMap (metadataList : List KeyMetadata) : AList (fun _ : String => KeyMetadata) :=
  metadataList.foldl (fun m md => m.insert md.keyId md) ∅

/-- The last loop of `BatchGetKeyMetadata`; every success takes its own timestamp. -/
def metadataResults (metadataMap : AList fun _ : String => KeyMetadata) :
    List KeyRequestItem → Svc (List (ItemResult GetKeyMetadataResponse))
  | [] => pure []
  | item :: items =>
    match metadataMap.lookup item.keyId with
    | some m => do
      let now ← Act.call (I := Effect) .timeNow
      let rs ← metadataResults metadataMap items
      pure (⟨item.keyId, .ok ⟨some m, now⟩⟩ :: rs)
    | none => do
      let rs ← metadataResults metadataMap items
      pure (⟨item.keyId, .error "key metadata not found or could not be processed"⟩ :: rs)

/-- `BatchGetKeyMetadata` from the repository call on.  The items that do not parse are reported
twice, once by each loop. -/
def fetchMetadata (s : KeyService) (req : BatchGetRequest) :
    Svc (BatchResponse GetKeyMetadataResponse) := do
  let invalid := s.invalidItems (req.keys.map (·.keyId))
  let keyIDs := s.idsOrZero req.keys
  let fetched ← Act.attempt (repo (.getBatchKeyMetadata keyIDs))
  match fetched with
  | .error e =>
    if !req.continueOnError then
      Act.throw (e.wrap "failed to retrieve batch key metadata from repository: ")
    else do
      let now ← Act.call (I := Effect) .timeNow
      let results := invalid ++ keyIDs.map fun id => ⟨id.string s.uuid, .error e.text⟩
      pure ⟨results, now, 0, results.length⟩
  | .ok metadataList => do
    let found ← metadataResults (metadataMap metadataList) req.keys
    let now ← Act.call (I := Effect) .timeNow
    pure ⟨invalid ++ found, now, found.countP (·.result.isOk),
      invalid.length + found.countP (!·.result.isOk)⟩

/-- `keyServiceImpl.BatchGetKeyMetadata`. -/
def batchGetKeyMetadata (s : KeyService) (req : BatchGetRequest) :
    Svc (BatchResponse GetKeyMetadataResponse) :=
  if !hasIdentity req.requesterContext then Act.throw (.of .errInvalidInput)
  else
    match s.firstInvalid (req.keys.map (·.keyId)), req.continueOnError with
    | some e, false => Act.throw (e.wrap "invalid key ID in batch request: ")
    | _, _ => s.fetchMetadata req

/-! ## 3. Listing -/

/-- `keyServiceImpl.ListKeys`. -/
def listKeys (s : KeyService) (req : ListKeysRequest) : Svc ListKeysResponse := do
  let cursor ← (if req.pageToken = "" then pure none
    else match s.parseTime req.pageToken with
      | none => Act.throw (.of .errInvalidInput)
      | some t => pure (some t) : Svc (Option Time))
  let limit := if req.pageSize = 0 then 100 else req.pageSize
  let keys ← repo (.listKeys cursor limit)
  let nextPageToken :=
    match List.getLast? (α := Key) keys with
    | some last =>
      if (List.length (α := Key) keys : Int) = limit then s.formatTime last.createdAt else ""
    | none => ""
  let now ← Act.call (I := Effect) .timeNow
  pure ⟨List.map (α := Key) (·.metadata) keys, nextPageToken, now⟩

end KeyService

end Polykey
