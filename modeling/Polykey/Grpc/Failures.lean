/-
# What a client learns from a failure

A failure leaves the server in four ways.  `AuthenticationInterceptor` writes the error of
`ValidateToken` into its status.  Behind it, the error of a handler, or of the validation, becomes a
status through `sanitizeError`, and nothing of its text is left.  The error of an item of a batch is
put into the response as text.  And `Authenticate` writes the error of the service into its status.

The batch methods return texts only, so this module restates them with the errors that the texts
are of (`itemErrors`), and shows that the two run alike (`itemTexts_alike`).  A failure is then an
internal error together with the text that the client gets for it, and an RPC `Hides` its errors
when failures of one class have one text.  Only `HealthCheck` does.  Of the requests that the
interceptor lets in, the RPCs for one key hide the errors, `Authenticate` and the six batches do not
(`hides_iff_sanitized`).
-/
import Polykey.Auth.AuthService
import Polykey.Grpc.ErrorCodes
import Polykey.Grpc.Interceptors

namespace Polykey

open Lib Interceptors

/-! ## 1. The errors behind the results of a batch -/

/-- The errors among some outcomes. -/
def errorsOf {ε α : Type} (items : List (Except ε α)) : List ε :=
  items.filterMap fun
    | .ok _ => none
    | .error e => some e

section ErrorsOf

variable {ε δ α β : Type}

@[simp] theorem errorsOf_nil : errorsOf ([] : List (Except ε α)) = [] := rfl

@[simp] theorem errorsOf_ok (a : α) (items : List (Except ε α)) :
    errorsOf (.ok a :: items) = errorsOf items := rfl

@[simp] theorem errorsOf_error (e : ε) (items : List (Except ε α)) :
    errorsOf (.error e :: items) = e :: errorsOf items := rfl

@[simp] theorem errorsOf_append (items items' : List (Except ε α)) :
    errorsOf (items ++ items') = errorsOf items ++ errorsOf items' := List.filterMap_append

@[simp] theorem errorsOf_replicate_ok (n : Nat) (a : α) :
    errorsOf (List.replicate n (.ok a : Except ε α)) = [] := by
  induction n with
  | zero => rfl
  | succ n ih => exact ih

@[simp] theorem errorsOf_replicate_error (n : Nat) (e : ε) :
    errorsOf (List.replicate n (.error e : Except ε α)) = List.replicate n e := by
  induction n with
  | zero => rfl
  | succ n ih => exact congrArg (e :: ·) ih

/-- Rewriting the errors rewrites the errors. -/
theorem errorsOf_mapError (f : ε → δ) (g : α → β) (items : List (Except ε α)) :
    errorsOf (items.map fun r => (r.mapError f).map g) = (errorsOf items).map f := by
  induction items with
  | nil => rfl
  | cons r items ih =>
    cases r with
    | ok a => exact ih
    | error e => exact congrArg (f e :: ·) ih

end ErrorsOf

/-- The error texts in a batch response. -/
def BatchResponse.errorTexts {α : Type} (resp : BatchResponse α) : List String :=
  errorsOf (resp.results.map (·.result))

namespace KeyService

/-- `BatchCreateKeys`, with the errors of its items. -/
def createErrors (s : KeyService) (req : BatchCreateKeysRequest) : Svc (List Err) :=
  if !hasIdentity req.requesterContext then Act.throw (.of .errInvalidInput)
  else do
    let items ← processBatch validateCreate (fun item => s.createKeyObject item
      (identityOf req.requesterContext) (profileOf req.requesterContext)) req.keys
    Act.mapError (Err.wrap "failed to create keys in batch: ")
      (repo (.createBatchKeys (createdKeys items)))
    pure (errorsOf items)

/-- `BatchGetKeys`, with the errors of its items. -/
def getErrors (s : KeyService) (req : BatchGetRequest) : Svc (List Err) :=
  if !hasIdentity req.requesterContext then Act.throw (.of .errInvalidInput)
  else do
    let keyIDs ← Act.ofExcept (s.parseAll req.keys)
    let keys ← Act.mapError (Err.wrap "failed to retrieve batch keys from repository: ")
      (repo (.getBatchKeys keyIDs))
    let keyMap := s.keyMap keys
    let items ← processBatch (validateGet keyMap)
      (s.processGet (identityOf req.requesterContext) keyMap) req.keys
    let _ ← Act.call (I := Effect) .timeNow
    pure (errorsOf items)

/-- `BatchRotateKeys`, with the errors of its items. -/
def rotateErrors (s : KeyService) (req : BatchRotateKeysRequest) : Svc (List Err) :=
  if !hasIdentity req.requesterContext then Act.throw (.of .errInvalidRequest)
  else do
    let items ← processBatch s.validateRotate s.rotateItem req.keys
    let _ ← Act.call (I := Effect) .timeNow
    pure (errorsOf items)

/-- The errors of the items whose text is no id. -/
def invalidErrors (s : KeyService) (keyIds : List String) : List Err :=
  errorsOf (keyIds.map (keyIDFromString s.uuid))

def revokeItemsErrors (s : KeyService) (req : BatchRevokeKeysRequest) : Svc (List Err) := do
  let keyIDs := (req.keys.foldl (RevokeItems.add s) ⟨[], [], []⟩).keyIDs
  let revoked ← Act.attempt (repo (.revokeBatchKeys keyIDs))
  match revoked with
  | .error e =>
    if !req.continueOnError then
      Act.throw (e.wrap "failed to revoke batch keys from repository: ")
    else do
      let _ ← Act.call (I := Effect) .timeNow
      pure (s.invalidErrors req.keys ++ keyIDs.map fun _ => e)
  | .ok _ => do
    let _ ← Act.call (I := Effect) .timeNow
    pure (s.invalidErrors req.keys)

/-- `BatchRevokeKeys`, with the errors of its items. -/
def revokeErrors (s : KeyService) (req : BatchRevokeKeysRequest) : Svc (List Err) :=
  if !hasIdentity req.requesterContext then Act.throw (.of .errInvalidRequest)
  else
    match s.firstInvalid req.keys, req.continueOnError with
    | some e, false => Act.throw (e.wrap "invalid key ID in batch request: ")
    | _, _ => s.revokeItemsErrors req

/-- A missing key has no error but its text. -/
def fetchErrors (s : KeyService) (req : BatchGetRequest) : Svc (List Err) := do
  let invalid := s.invalidErrors (req.keys.map (·.keyId))
  let keyIDs := s.idsOrZero req.keys
  let fetched ← Act.attempt (repo (.getBatchKeyMetadata keyIDs))
  match fetched with
  | .error e =>
    if !req.continueOnError then
      Act.throw (e.wrap "failed to retrieve batch key metadata from repository: ")
    else do
      let _ ← Act.call (I := Effect) .timeNow
      pure (invalid ++ keyIDs.map fun _ => e)
  | .ok metadataList => do
    let found ← metadataResults (metadataMap metadataList) req.keys
    let _ ← Act.call (I := Effect) .timeNow
    pure (invalid ++ (errorsOf (found.map (·.result))).map .new)

/-- `BatchGetKeyMetadata`, with the errors of its items. -/
def metadataErrors (s : KeyService) (req : BatchGetRequest) : Svc (List Err) :=
  if !hasIdentity req.requesterContext then Act.throw (.of .errInvalidInput)
  else
    match s.firstInvalid (req.keys.map (·.keyId)), req.continueOnError with
    | some e, false => Act.throw (e.wrap "invalid key ID in batch request: ")
    | _, _ => s.fetchErrors req

/-- The loop of `BatchUpdateKeyMetadata`, with the errors of the items that failed. -/
def updateLoopErrors (s : KeyService) (continueOnError : Bool) :
    List UpdateKeyMetadataItem → Svc (List Key × List Err)
  | [] => pure ([], [])
  | item :: items => do
    let r ← s.updateItem item
    match r with
    | .error (text, e) =>
      if !continueOnError then Act.throw e
      else do
        let (keys, errors) ← s.updateLoopErrors continueOnError items
        pure (keys, ⟨text, e.chain⟩ :: errors)
    | .ok key => do
      let (keys, errors) ← s.updateLoopErrors continueOnError items
      pure (key :: keys, errors)

/-- `BatchUpdateKeyMetadata`, with the errors of its items. -/
def updateErrors (s : KeyService) (req : BatchUpdateKeyMetadataRequest) : Svc (List Err) :=
  if !hasIdentity req.requesterContext then Act.throw (.of .errInvalidRequest)
  else do
    let (keysToUpdate, errors) ← s.updateLoopErrors req.continueOnError req.keys
    let updated ← Act.attempt (repo (.updateBatchKeyMetadata keysToUpdate))
    match updated with
    | .error e =>
      if !req.continueOnError then
        Act.throw (e.wrap "failed to update batch key metadata in repository: ")
      else do
        let _ ← Act.call (I := Effect) .timeNow
        pure (errors ++ req.keys.map fun _ => e)
    | .ok _ => do
      let _ ← Act.call (I := Effect) .timeNow
      pure errors

end KeyService

/-! ## 2. They are the errors of the responses

Each restated method runs alike with the modelled one, with its results replaced by their texts.
The proofs follow the methods: for the processor of batches item by item, for the loops by
induction on the items. -/

/-- The texts are those of the errors. -/
def TextsOf (texts : List String) (errors : List Err) : Prop := texts = errors.map Err.text

section Alike

variable {σ : Type} {sem : Sem Effect σ} (s : KeyService)

/-- A batch has one outcome per item. -/
theorem length_processBatch {α β : Type} {validate : α → Except Err Unit} {process : α → Svc β}
    {as : List α} {w w' : σ} {rs : List (Except Err β)}
    (h : Act.Runs sem (processBatch validate process as) w (.ok rs) w') :
    rs.length = as.length := by
  induction as generalizing w w' rs with
  | nil =>
    cases h.1
    rfl
  | cons a as ih =>
    obtain ⟨r, w₁, -, hrest⟩ := Act.runs_bind_ok.mp h
    obtain ⟨rs', w₂, htail, hpure, -⟩ := Act.runs_bind_ok.mp hrest
    cases hpure
    simp [ih htail]

theorem zipWith_right {α β γ : Type} (f : β → γ) (as : List α) (bs : List β)
    (h : bs.length = as.length) : List.zipWith (fun _ b => f b) as bs = bs.map f := by
  induction bs generalizing as with
  | nil => simp
  | cons b bs ih =>
    cases as with
    | nil => cases h
    | cons a as => simp [ih as (by simpa using h)]

theorem batchResponse_errorTexts {α : Type} {keyIds : List String} {items : List (Except Err α)}
    (hlen : items.length = keyIds.length) (now : Time) :
    TextsOf (batchResponse keyIds items now).errorTexts (errorsOf items) := by
  have hresults : (batchResponse keyIds items now).results.map (·.result) =
      items.map fun r => (r.mapError Err.text).map id := by
    simp only [batchResponse, List.map_zipWith]
    rw [zipWith_right _ keyIds items hlen]
    refine List.map_congr_left fun r _ => ?_
    cases r with
    | ok a => rfl
    | error e => rfl
  rw [TextsOf, BatchResponse.errorTexts, hresults, errorsOf_mapError]

/-- What the batch processor leaves, as a response. -/
theorem alike_processBatch {α β : Type} {validate : α → Except Err Unit} {process : α → Svc β}
    (as : List α) (keyId : α → String) :
    Act.Alike sem
      (do let items ← processBatch validate process as
          let now ← Act.call (I := Effect) .timeNow
          pure (batchResponse (as.map keyId) items now))
      (do let items ← processBatch validate process as
          let _ ← Act.call (I := Effect) .timeNow
          pure (errorsOf items))
      fun resp errors => TextsOf resp.errorTexts errors := by
  refine (Act.Alike.refl fun _ _ _ hrun => length_processBatch hrun).bind fun items items' h => ?_
  obtain ⟨rfl, hlen⟩ := h
  refine Act.Alike.after _ fun now => Act.Alike.pure ?_
  exact batchResponse_errorTexts (by simpa using hlen) now

theorem createErrors_alike (req : BatchCreateKeysRequest) :
    Act.Alike sem (s.batchCreateKeys req) (s.createErrors req)
      fun resp errors => TextsOf (errorsOf resp) errors := by
  unfold KeyService.batchCreateKeys KeyService.createErrors
  split
  · exact .throw _
  refine Act.Alike.after _ fun items => Act.Alike.after _ fun _ => Act.Alike.pure ?_
  exact errorsOf_mapError Err.text _ items

theorem getErrors_alike (req : BatchGetRequest) :
    Act.Alike sem (s.batchGetKeys req) (s.getErrors req)
      fun resp errors => TextsOf resp.errorTexts errors := by
  unfold KeyService.batchGetKeys KeyService.getErrors
  split
  · exact .throw _
  exact Act.Alike.after _ fun _ => Act.Alike.after _ fun _ => alike_processBatch _ _

theorem rotateErrors_alike (req : BatchRotateKeysRequest) :
    Act.Alike sem (s.batchRotateKeys req) (s.rotateErrors req)
      fun resp errors => TextsOf resp.errorTexts errors := by
  unfold KeyService.batchRotateKeys KeyService.rotateErrors
  split
  · exact .throw _
  exact alike_processBatch _ _

/-- The items that are no ids, in front of results that come from one answer. -/
theorem textsOf_results {α β : Type} {invalid : List (ItemResult α)} {invalidErrors : List Err}
    (hinvalid : TextsOf (errorsOf (invalid.map (·.result))) invalidErrors) (ids : List β)
    (keyId : β → String) (e : Err) (now : Time) (n m : Nat) :
    TextsOf (BatchResponse.errorTexts ⟨invalid ++ ids.map fun id =>
        (⟨keyId id, .error e.text⟩ : ItemResult α), now, n, m⟩)
      (invalidErrors ++ ids.map fun _ => e) := by
  unfold TextsOf at hinvalid ⊢
  simp [BatchResponse.errorTexts, hinvalid, Function.comp_def]

theorem textsOf_successes {α β : Type} {invalid : List (ItemResult α)} {invalidErrors : List Err}
    (hinvalid : TextsOf (errorsOf (invalid.map (·.result))) invalidErrors) (ids : List β)
    (keyId : β → String) (value : α) (now : Time) (n m : Nat) :
    TextsOf (BatchResponse.errorTexts ⟨invalid ++ ids.map fun id =>
        (⟨keyId id, .ok value⟩ : ItemResult α), now, n, m⟩) invalidErrors := by
  unfold TextsOf at hinvalid ⊢
  simp [BatchResponse.errorTexts, hinvalid, Function.comp_def]

/-- The first loop of `BatchRevokeKeys` collects the items that are no ids. -/
theorem revokeItems_failed (keyIds : List String) (items : KeyService.RevokeItems) :
    errorsOf ((keyIds.foldl (KeyService.RevokeItems.add s) items).failed.map (·.result)) =
      errorsOf (items.failed.map (·.result)) ++ (s.invalidErrors keyIds).map Err.text := by
  induction keyIds generalizing items with
  | nil => simp [KeyService.invalidErrors]
  | cons keyId keyIds ih =>
    rw [List.foldl_cons, ih]
    unfold KeyService.RevokeItems.add KeyService.invalidErrors
    cases hid : keyIDFromString s.uuid keyId with
    | error e => simp [hid]
    | ok id =>
      by_cases hseen : keyId ∈ items.seen
      · simp [hid, hseen]
      · simp [hid, hseen]

theorem revokeItemsErrors_alike (req : BatchRevokeKeysRequest) :
    Act.Alike sem (s.revokeItems req) (s.revokeItemsErrors req)
      fun resp errors => TextsOf resp.errorTexts errors := by
  have hinvalid : TextsOf (errorsOf ((req.keys.foldl (KeyService.RevokeItems.add s)
      ⟨[], [], []⟩).failed.map (·.result))) (s.invalidErrors req.keys) := by
    simpa [TextsOf] using revokeItems_failed s req.keys ⟨[], [], []⟩
  unfold KeyService.revokeItems KeyService.revokeItemsErrors
  refine Act.Alike.after (Act.attempt (repo _)) fun revoked => ?_
  cases revoked with
  | error e =>
    dsimp only
    split
    · exact .throw _
    · exact Act.Alike.after _ fun now => .pure (textsOf_results hinvalid _ _ e now _ _)
  | ok _ => exact Act.Alike.after _ fun now => .pure (textsOf_successes hinvalid _ _ _ now _ _)

theorem revokeErrors_alike (req : BatchRevokeKeysRequest) :
    Act.Alike sem (s.batchRevokeKeys req) (s.revokeErrors req)
      fun resp errors => TextsOf resp.errorTexts errors := by
  have hitems : Act.Alike sem (s.revokeItems req) (s.revokeItemsErrors req) _ :=
    revokeItemsErrors_alike s req
  unfold KeyService.batchRevokeKeys KeyService.revokeErrors
  split
  · exact .throw _
  cases s.firstInvalid req.keys with
  | none => exact hitems
  | some e =>
    cases hgo : req.continueOnError with
    | false => exact .throw _
    | true => exact hitems

theorem invalidItems_texts {α : Type} (keyIds : List String) :
    TextsOf (errorsOf ((s.invalidItems keyIds : List (ItemResult α)).map (·.result)))
      (s.invalidErrors keyIds) := by
  unfold TextsOf
  induction keyIds with
  | nil => rfl
  | cons keyId keyIds ih =>
    unfold KeyService.invalidItems KeyService.invalidErrors at ih ⊢
    cases hid : keyIDFromString s.uuid keyId with
    | error e => simpa [hid] using ih
    | ok id => simpa [hid] using ih

theorem fetchErrors_alike (req : BatchGetRequest) :
    Act.Alike sem (s.fetchMetadata req) (s.fetchErrors req)
      fun resp errors => TextsOf resp.errorTexts errors := by
  have hinvalid : TextsOf (errorsOf ((s.invalidItems (req.keys.map (·.keyId)) :
      List (ItemResult GetKeyMetadataResponse)).map (·.result))) _ := invalidItems_texts s _
  unfold KeyService.fetchMetadata KeyService.fetchErrors
  refine Act.Alike.after (Act.attempt (repo _)) fun fetched => ?_
  cases fetched with
  | error e =>
    dsimp only
    split
    · exact .throw _
    · exact Act.Alike.after _ fun now => .pure (textsOf_results hinvalid _ _ e now _ _)
  | ok metadataList =>
    refine Act.Alike.after _ fun found => Act.Alike.after _ fun now => .pure ?_
    unfold TextsOf at hinvalid ⊢
    simp [BatchResponse.errorTexts, hinvalid, Function.comp_def, Err.new]

theorem metadataErrors_alike (req : BatchGetRequest) :
    Act.Alike sem (s.batchGetKeyMetadata req) (s.metadataErrors req)
      fun resp errors => TextsOf resp.errorTexts errors := by
  have hfetch : Act.Alike sem (s.fetchMetadata req) (s.fetchErrors req) _ :=
    fetchErrors_alike s req
  unfold KeyService.batchGetKeyMetadata KeyService.metadataErrors
  split
  · exact .throw _
  cases s.firstInvalid (req.keys.map (·.keyId)) with
  | none => exact hfetch
  | some e =>
    cases hgo : req.continueOnError with
    | false => exact .throw _
    | true => exact hfetch

theorem updateLoopErrors_alike (continueOnError : Bool) (items : List UpdateKeyMetadataItem) :
    Act.Alike sem (s.updateLoop continueOnError items) (s.updateLoopErrors continueOnError items)
      fun out errors => errors.1 = out.1 ∧ TextsOf (errorsOf (out.2.map (·.result))) errors.2 := by
  induction items with
  | nil => exact .pure ⟨rfl, rfl⟩
  | cons item items ih =>
    unfold KeyService.updateLoop KeyService.updateLoopErrors
    refine Act.Alike.after _ fun r => ?_
    cases r with
    | error failure =>
      dsimp only
      split
      · exact .throw _
      · refine ih.bind fun out errors h => .pure ⟨h.1, ?_⟩
        exact congrArg (failure.1 :: ·) h.2
    | ok key => exact ih.bind fun out errors h => .pure ⟨congrArg (key :: ·) h.1, h.2⟩

theorem updateErrors_alike (req : BatchUpdateKeyMetadataRequest) :
    Act.Alike sem (s.batchUpdateKeyMetadata req) (s.updateErrors req)
      fun resp errors => TextsOf resp.errorTexts errors := by
  unfold KeyService.batchUpdateKeyMetadata KeyService.updateErrors
  split
  · exact .throw _
  refine (updateLoopErrors_alike s req.continueOnError req.keys).bind fun out errors h => ?_
  obtain ⟨keys, failed⟩ := out
  obtain ⟨keys', errors⟩ := errors
  obtain ⟨rfl, hfailed⟩ := h
  refine Act.Alike.after _ fun updated => ?_
  cases updated with
  | error e =>
    dsimp only
    split
    · exact .throw _
    · exact Act.Alike.after _ fun now => .pure (textsOf_results hfailed _ _ e now _ _)
  | ok _ => exact Act.Alike.after _ fun now => .pure (textsOf_successes hfailed _ _ _ now _ _)

end Alike

namespace PolykeyService

/-- The error texts in the response of a handler. -/
def itemTexts (p : PolykeyService) (ctx : CallContext) : ServiceCall → Svc (List String)
  | .batchCreateKeys req => do
    let resp ← p.batchCreateKeys ctx req
    pure (errorsOf resp)
  | .batchGetKeys req => do
    let resp ← p.batchGetKeys ctx req
    pure resp.errorTexts
  | .batchGetKeyMetadata req => do
    let resp ← p.batchGetKeyMetadata ctx req
    pure resp.errorTexts
  | .batchRotateKeys req => do
    let resp ← p.batchRotateKeys ctx req
    pure resp.errorTexts
  | .batchRevokeKeys req => do
    let resp ← p.batchRevokeKeys ctx req
    pure resp.errorTexts
  | .batchUpdateKeyMetadata req => do
    let resp ← p.batchUpdateKeyMetadata ctx req
    pure resp.errorTexts
  | call => do
    p.handle ctx call
    pure []

/-- A handler, with the errors of its items. -/
def itemErrors (p : PolykeyService) (ctx : CallContext) : ServiceCall → Svc (List Err)
  | .batchCreateKeys req => p.execWithoutKey ctx authKeysCreate req.requesterContext
    (p.keyService.createErrors req)
  | .batchGetKeys req => p.execWithoutKey ctx authKeysRead req.requesterContext
    (p.keyService.getErrors req)
  | .batchGetKeyMetadata req => p.execWithoutKey ctx authKeysRead req.requesterContext
    (p.keyService.metadataErrors req)
  | .batchRotateKeys req => p.execWithoutKey ctx authKeysRotate req.requesterContext
    (p.keyService.rotateErrors req)
  | .batchRevokeKeys req => p.execWithoutKey ctx authKeysRevoke req.requesterContext
    (p.keyService.revokeErrors req)
  | .batchUpdateKeyMetadata req => p.execWithoutKey ctx authKeysUpdate req.requesterContext
    (p.keyService.updateErrors req)
  | call => do
    p.handle ctx call
    pure []

end PolykeyService

section Items

variable {σ : Type} {sem : Sem Effect σ} (p : PolykeyService) (ctx : CallContext)

/-- Handlers run alike if what is behind the authorizer does. -/
theorem alike_execWithoutKey {α β : Type} {R : α → β → Prop} {fn : Svc α} {fn' : Svc β}
    (h : Act.Alike sem fn fn' R) (operation : String) (rc : Option RequesterContext) :
    Act.Alike sem (p.execWithoutKey ctx operation rc fn)
      (p.execWithoutKey ctx operation rc fn') R := by
  refine Act.Alike.after _ fun decision => ?_
  split
  · exact h
  · exact .throw _

/-- **The texts in a response are the texts of the errors of its items.** -/
theorem itemTexts_alike (call : ServiceCall) :
    Act.Alike sem (p.itemTexts ctx call) (p.itemErrors ctx call) TextsOf := by
  cases call with
  | batchCreateKeys req =>
    exact (alike_execWithoutKey p ctx (createErrors_alike p.keyService req) _ _).map_left
  | batchGetKeys req =>
    exact (alike_execWithoutKey p ctx (getErrors_alike p.keyService req) _ _).map_left
  | batchGetKeyMetadata req =>
    exact (alike_execWithoutKey p ctx (metadataErrors_alike p.keyService req) _ _).map_left
  | batchRotateKeys req =>
    exact (alike_execWithoutKey p ctx (rotateErrors_alike p.keyService req) _ _).map_left
  | batchRevokeKeys req =>
    exact (alike_execWithoutKey p ctx (revokeErrors_alike p.keyService req) _ _).map_left
  | batchUpdateKeyMetadata req =>
    exact (alike_execWithoutKey p ctx (updateErrors_alike p.keyService req) _ _).map_left
  | _ => exact Act.Alike.after _ fun _ => .pure rfl

end Items

/-! ## 3. Failures

What the interceptor answers to a request without a token, or above the rate, is not the error of
anything behind it, and has no part here. -/

/-- The RPCs that are implemented. -/
inductive RPC
  | authenticate
  | healthCheck
  | createKey
  | batchCreateKeys
  | getKey
  | batchGetKeys
  | getKeyMetadata
  | batchGetKeyMetadata
  | listKeys
  | rotateKey
  | batchRotateKeys
  | revokeKey
  | batchRevokeKeys
  | updateKeyMetadata
  | batchUpdateKeyMetadata
  deriving DecidableEq, Repr

def RPC.fullMethod : RPC → String
  | authenticate => "/polykey.v2.PolykeyService/Authenticate"
  | healthCheck => "/polykey.v2.PolykeyService/HealthCheck"
  | createKey => "/polykey.v2.PolykeyService/CreateKey"
  | batchCreateKeys => "/polykey.v2.PolykeyService/BatchCreateKeys"
  | getKey => "/polykey.v2.PolykeyService/GetKey"
  | batchGetKeys => "/polykey.v2.PolykeyService/BatchGetKeys"
  | getKeyMetadata => "/polykey.v2.PolykeyService/GetKeyMetadata"
  | batchGetKeyMetadata => "/polykey.v2.PolykeyService/BatchGetKeyMetadata"
  | listKeys => "/polykey.v2.PolykeyService/ListKeys"
  | rotateKey => "/polykey.v2.PolykeyService/RotateKey"
  | batchRotateKeys => "/polykey.v2.PolykeyService/BatchRotateKeys"
  | revokeKey => "/polykey.v2.PolykeyService/RevokeKey"
  | batchRevokeKeys => "/polykey.v2.PolykeyService/BatchRevokeKeys"
  | updateKeyMetadata => "/polykey.v2.PolykeyService/UpdateKeyMetadata"
  | batchUpdateKeyMetadata => "/polykey.v2.PolykeyService/BatchUpdateKeyMetadata"

/-- The interceptor asks for a token. -/
def RPC.Protected (rpc : RPC) : Prop := rpc.fullMethod ∉ unprotectedMethods

instance (rpc : RPC) : Decidable rpc.Protected :=
  inferInstanceAs (Decidable (rpc.fullMethod ∉ unprotectedMethods))

/-- Behind the interceptor, all failures of the RPC go through `sanitizeError`. -/
def RPC.sanitized : RPC → Bool
  | authenticate | batchCreateKeys | batchGetKeys | batchGetKeyMetadata | batchRotateKeys
  | batchRevokeKeys | batchUpdateKeyMetadata => false
  | _ => true

def ServiceCall.rpc : ServiceCall → Option RPC
  | .createKey _ => some .createKey
  | .batchCreateKeys _ => some .batchCreateKeys
  | .getKey _ => some .getKey
  | .batchGetKeys _ => some .batchGetKeys
  | .getKeyMetadata _ => some .getKeyMetadata
  | .batchGetKeyMetadata _ => some .batchGetKeyMetadata
  | .listKeys _ => some .listKeys
  | .rotateKey _ => some .rotateKey
  | .batchRotateKeys _ => some .batchRotateKeys
  | .revokeKey _ => some .revokeKey
  | .batchRevokeKeys _ => some .batchRevokeKeys
  | .updateKeyMetadata _ => some .updateKeyMetadata
  | .batchUpdateKeyMetadata _ => some .batchUpdateKeyMetadata
  | .worker => none

/-- The way of a request with the error as it is before `sanitizeError`. -/
def PolykeyService.answer (p : PolykeyService) (rv : RequestValidator) (ctx : CallContext)
    (inc : IncomingRequest) : Svc Unit :=
  match unaryValidationInterceptor rv inc with
  | .error e => Act.throw e
  | .ok call => p.handle ctx call

theorem serve_eq_rethrow (p : PolykeyService) (rv : RequestValidator) (ctx : CallContext)
    (inc : IncomingRequest) :
    p.serve rv ctx inc = Act.rethrow sanitizeError (p.answer rv ctx inc) := by
  unfold PolykeyService.serve PolykeyService.answer
  cases unaryValidationInterceptor rv inc with
  | error e => rfl
  | ok call => rfl

/-- An error inside of the server, and what the client gets to read of it. -/
structure Failure where
  internal : Err
  text : String

/-- The interceptor, at some time of some server, lets a request for the RPC in, and the handler
gets the context. -/
def Admitted (a : AuthService) (rpc : RPC) (ctx : CallContext) : Prop :=
  ∃ (σ : Type) (limiter : Limiter σ) (clients clients' : RateLimiter σ)
    (start now later time : Time) (req : UnaryRequest), req.fullMethod = rpc.fullMethod ∧
      authenticationInterceptor limiter a.jwt (.new start) now later time req clients =
        (.ok ctx, clients')

/-- The failures of the requests that the interceptor lets in: the status of a request, an item of a
batch, and the two ways in which `Authenticate` fails.  `HealthCheck` does not fail. -/
inductive FailsInside (p : PolykeyService) (a : AuthService) (rv : RequestValidator) (kms : KMS) :
    RPC → Failure → Prop
  | status {ctx : CallContext} {inc : IncomingRequest} {rpc : RPC} {w w' : World} {e : Err}
      (hadmitted : Admitted a rpc ctx) (hrpc : inc.call.rpc = some rpc)
      (hrun : Act.Runs (worldSem p.keyService.uuid kms) (p.answer rv ctx inc) w (.error e) w') :
      FailsInside p a rv kms rpc ⟨e, (sanitizeError e).message⟩
  | item {ctx : CallContext} {inc : IncomingRequest} {call : ServiceCall} {rpc : RPC} {w w' : World}
      {errors : List Err} {e : Err} (hadmitted : Admitted a rpc ctx)
      (hrpc : inc.call.rpc = some rpc) (hcheck : unaryValidationInterceptor rv inc = .ok call)
      (hrun : Act.Runs (worldSem p.keyService.uuid kms) (p.itemErrors ctx call) w (.ok errors) w')
      (he : e ∈ errors) : FailsInside p a rv kms rpc ⟨e, e.text⟩
  | refused {req : AuthenticateRequest} {e : Err}
    (he : validateAuthenticateRequest req = .error e) :
      FailsInside p a rv kms .authenticate ⟨e, (sanitizeError e).message⟩
  | unauthenticated {req : AuthenticateRequest} {now later : Time} {id : String} {e : Err}
      (hvalid : validateAuthenticateRequest req = .ok ())
      (he : a.authenticate now later id req.clientId req.apiKey = .error e) :
      FailsInside p a rv kms .authenticate ⟨e, "authentication failed: " ++ e.text⟩

/-- The failures of an RPC: the interceptor does not accept the token, or lets the request in. -/
inductive Fails (p : PolykeyService) (a : AuthService) (rv : RequestValidator) (kms : KMS)
    (rpc : RPC) : Failure → Prop
  | token {req : UnaryRequest} {start now later : Time} {token : String} {e : Err}
      (hmethod : req.fullMethod = rpc.fullMethod) (hprotected : rpc.Protected)
      (hbearer : bearerToken req.incomingMetadata = .ok token)
      (he : (TokenManager.new start).validateToken a.jwt now later token = .error e) :
      Fails p a rv kms rpc ⟨e, "invalid token: " ++ e.text⟩
  | inside {f : Failure} (h : FailsInside p a rv kms rpc f) : Fails p a rv kms rpc f

/-- Two failures of one class read the same. -/
def SameTexts (fails : Failure → Prop) : Prop :=
  ∀ f f', fails f → fails f' → f.internal.rule = f'.internal.rule → f.text = f'.text

/-- Whatever the deployment, the failures do not tell more than their class. -/
def Hides (rpc : RPC) : Prop :=
  ∀ (p : PolykeyService) (a : AuthService) (rv : RequestValidator) (kms : KMS),
    SameTexts (Fails p a rv kms rpc)

/-- The same of the requests that the interceptor lets in. -/
def HidesInside (rpc : RPC) : Prop :=
  ∀ (p : PolykeyService) (a : AuthService) (rv : RequestValidator) (kms : KMS),
    SameTexts (FailsInside p a rv kms rpc)

section Failures

variable {p : PolykeyService} {a : AuthService} {rv : RequestValidator} {kms : KMS} {rpc : RPC}
  {f : Failure}

theorem interceptor_rpc {inc : IncomingRequest} {call : ServiceCall}
    (h : unaryValidationInterceptor rv inc = .ok call) : call.rpc = inc.call.rpc := by
  obtain ⟨c, size, filters⟩ := inc
  cases c with
  | createKey _ | updateKeyMetadata _ | listKeys _ | getKey _ | rotateKey _ | revokeKey _
  | getKeyMetadata _ =>
    obtain ⟨_, -, rfl⟩ := map_eq_ok.mp h
    rfl
  | _ =>
    cases h
    rfl

/-- The response of a request for one key has no error texts. -/
theorem itemErrors_sanitized {call : ServiceCall} (hrpc : call.rpc = some rpc)
    (h : rpc.sanitized = true) (ctx : CallContext) :
    p.itemErrors ctx call = (do p.handle ctx call; pure []) := by
  cases call with
  | batchCreateKeys _ | batchGetKeys _ | batchGetKeyMetadata _ | batchRotateKeys _
  | batchRevokeKeys _ | batchUpdateKeyMetadata _ =>
    cases hrpc
    cases h
  | _ => rfl

/-- What the client reads of a token that is not accepted is the answer of the interceptor. -/
theorem interceptor_token {σ : Type} (limiter : Limiter σ) (clients : RateLimiter σ)
    {req : UnaryRequest} {start now later : Time} (time : Time) {token : String} {e : Err}
    (hmethod : req.fullMethod = rpc.fullMethod) (hprotected : rpc.Protected)
    (hbearer : bearerToken req.incomingMetadata = .ok token)
    (he : (TokenManager.new start).validateToken a.jwt now later token = .error e) :
    authenticationInterceptor limiter a.jwt (.new start) now later time req clients =
      (.error ⟨.unauthenticated, "invalid token: " ++ e.text⟩, clients) := by
  have hmember : req.fullMethod ∉ unprotectedMethods := hmethod ▸ hprotected
  simp [authenticationInterceptor, identify, hmember, hbearer, he]

/-- The status of a request that is let in is one of the failures. -/
theorem FailsInside.of_serve {ctx : CallContext} {inc : IncomingRequest} {w w' : World}
    {status : Status} (hadmitted : Admitted a rpc ctx) (hrpc : inc.call.rpc = some rpc)
    (hrun : Act.Runs (worldSem p.keyService.uuid kms) (p.serve rv ctx inc) w (.error status) w') :
    ∃ f, FailsInside p a rv kms rpc f ∧ f.text = status.message := by
  rw [serve_eq_rethrow] at hrun
  obtain ⟨x, hx, hstatus⟩ := Act.runs_rethrow.mp hrun
  cases x with
  | ok _ => cases hstatus
  | error e =>
    cases hstatus
    exact ⟨_, .status hadmitted hrpc hx, rfl⟩

/-- And so is that of a login. -/
theorem FailsInside.of_authenticate {now later : Time} {id : String} {req : AuthenticateRequest}
    {status : Status} (h : a.serve now later id req = .error status) :
    ∃ f, FailsInside p a rv kms .authenticate f ∧ f.text = status.message := by
  rcases serve_error h with ⟨e, he, rfl⟩ | ⟨hvalid, e, he, rfl⟩
  · exact ⟨_, .refused he, rfl⟩
  · exact ⟨_, .unauthenticated hvalid he, rfl⟩

/-- Every failure of such an RPC is sanitized. -/
theorem FailsInside.text_eq (h : rpc.sanitized = true) (hf : FailsInside p a rv kms rpc f) :
    f.text = (sanitizeError f.internal).message := by
  cases hf with
  | status _ _ _ => rfl
  | item _ hrpc hcheck hrun he =>
    rw [itemErrors_sanitized ((interceptor_rpc hcheck).trans hrpc) h] at hrun
    obtain ⟨_, _, -, hnil, -⟩ := Act.runs_bind_ok.mp hrun
    cases hnil
    cases he
  | refused _ => rfl
  | unauthenticated _ _ => cases h

end Failures

/-! ### A deployment with faults

To show that an RPC does not hide its errors two failures of one class with different texts are
needed. One deployment gives them for all batches: its calls fail with an error that is a
parameter. -/

/-- A KMS that may answer anything. -/
def faultyKMS : KMS where
  encrypts _ _ _ _ := True
  decrypts _ _ _ := True
  decrypts_total _ _ := ⟨.error .nilPointer, trivial⟩

/-- The deployment in which reading one row, reading metadata, revoking, decrypting and drawing
random bytes fail with `e`. -/
def faulty (e : Err) : Handler Effect World
  | .repo (.getKey _), w | .repo (.getBatchKeyMetadata _), w | .repo (.revokeBatchKeys _), w
  | .decryptDEK _ _, w | .randRead _, w => some (.error e, w)
  | op, w => sampleStep op w

theorem stepAt_faultyKMS {now : Time} {op : EffectOp} {w w' : World} {r : op.Res}
    (h : stepAt googleUUID sampleKMS now op w r w') :
    stepAt googleUUID faultyKMS now op w r w' := by
  cases op with
  | encryptDEK _ _ _ | decryptDEK _ _ => exact ⟨trivial, h.2⟩
  | _ => exact h

theorem faulty_sound (e : Err) : (faulty e).Sound (worldSem googleUUID faultyKMS) := by
  intro op w r w' h
  unfold faulty at h
  split at h
  · cases h
    exact ⟨w.clock, le_rfl, _, .inr ⟨⟨e, rfl⟩, rfl⟩, rfl⟩
  · cases h
    exact ⟨w.clock, le_rfl, _, .inr ⟨⟨e, rfl⟩, rfl⟩, rfl⟩
  · cases h
    exact ⟨w.clock, le_rfl, _, .inr ⟨⟨e, rfl⟩, rfl⟩, rfl⟩
  · cases h
    exact ⟨w.clock, le_rfl, trivial, rfl⟩
  · rename_i n
    cases h
    have hread : ∀ bytes : Bytes, (Except.error e : Except Err Bytes) = .ok bytes →
        bytes.length = n := fun _ hbytes => by cases hbytes
    exact ⟨w.clock, le_rfl, hread, rfl⟩
  · obtain ⟨now, hnow, hstep⟩ := sampleStep_sound _ w r w' h
    exact ⟨now, hnow, stepAt_faultyKMS hstep⟩

/-- A rotation of Alice's key, in a batch. -/
def rootRotates : BatchRotateKeysRequest := ⟨[⟨sampleText, 0⟩], true, ownContext root⟩

/-- One item in a batch of each kind, for Alice's key. -/
def rootBatch : RPC → ServiceCall
  | .batchCreateKeys => .batchCreateKeys ⟨[sampleItem], true, ownContext root⟩
  | .batchGetKeys => .batchGetKeys ⟨[⟨sampleText, 0, false⟩], true, ownContext root⟩
  | .batchGetKeyMetadata => .batchGetKeyMetadata ⟨[⟨sampleText, 0, false⟩], true, ownContext root⟩
  | .batchRotateKeys => .batchRotateKeys rootRotates
  | .batchRevokeKeys => .batchRevokeKeys ⟨[sampleText], true, ownContext root⟩
  | .batchUpdateKeyMetadata => .batchUpdateKeyMetadata
    ⟨[⟨sampleText, none, none, none, ∅, [], ∅, [], []⟩], true, ownContext root⟩
  | _ => .worker

/-- The errors of the items when the calls fail with `e`. -/
def faultyErrors (e : Err) (rpc : RPC) : List Err :=
  match Prog.exec (faulty e) (staffService.itemErrors rootContext (rootBatch rpc)) aliceKey with
  | some (.ok errors, _) => errors
  | _ => []

/-- A token of `root`, and a server that knows it. -/
def rootClaims : Claims := ⟨"root", ["*"], "id", some (15 * minute), some 0⟩

def rootLogin : AuthService := { aliceAuth with jwt := oneToken rootClaims }

def bearerCall (rpc : RPC) (token : String) : UnaryRequest where
  fullMethod := rpc.fullMethod
  peerCertificates := []
  incomingMetadata := some (AList.singleton "authorization" ["Bearer " ++ token])

theorem admitted_root {rpc : RPC} (h : rpc.Protected) : Admitted rootLogin rpc rootContext := by
  have hmember : (bearerCall rpc "t").fullMethod ∉ unprotectedMethods := h
  refine ⟨Unit, boundless, ∅, AList.insert "root" () ∅, 0, 0, 0, 0, bearerCall rpc "t", rfl, ?_⟩
  unfold authenticationInterceptor
  rw [if_neg hmember]
  rfl

theorem fails_faulty {rpc : RPC} (hrpc : (rootBatch rpc).rpc = some rpc)
    (hprotected : rpc.Protected)
    (hcheck : unaryValidationInterceptor sampleValidator (sampleIncoming (rootBatch rpc)) =
      .ok (rootBatch rpc)) {e e' : Err} (he' : e' ∈ faultyErrors e rpc) :
    FailsInside staffService rootLogin sampleValidator faultyKMS rpc ⟨e', e'.text⟩ := by
  unfold faultyErrors at he'
  split at he'
  · rename_i errors w' hexec
    exact .item (admitted_root hprotected) hrpc hcheck (Prog.exec_runs (faulty_sound e) hexec) he'
  · cases he'

def connectionRefused : Err := .new "dial tcp 10.0.0.5:5432: connection refused"

def diskFull : Err := .new "could not extend file: No space left on device"

/-- The texts of the two faults differ, in a batch of every kind. -/
theorem faultyErrors_differ {rpc : RPC} (hrpc : (rootBatch rpc).rpc = some rpc) :
    ∃ e ∈ faultyErrors connectionRefused rpc, ∃ e' ∈ faultyErrors diskFull rpc,
      e.rule = e'.rule ∧ e.text ≠ e'.text := by
  cases rpc with
  | batchCreateKeys | batchGetKeys | batchGetKeyMetadata | batchRotateKeys | batchRevokeKeys
  | batchUpdateKeyMetadata => decide +kernel
  | _ => cases hrpc

/-- The item errors of a batch reach the client as they are. -/
theorem not_hidesInside_batch {rpc : RPC} (hrpc : (rootBatch rpc).rpc = some rpc)
    (hprotected : rpc.Protected)
    (hcheck : unaryValidationInterceptor sampleValidator (sampleIncoming (rootBatch rpc)) =
      .ok (rootBatch rpc)) : ¬ HidesInside rpc := by
  intro hhides
  obtain ⟨e, he, e', he', hrule, htext⟩ := faultyErrors_differ hrpc
  exact htext (hhides _ _ _ _ _ _ (fails_faulty hrpc hprotected hcheck he)
    (fails_faulty hrpc hprotected hcheck he') hrule)

def aliceGuesses : AuthenticateRequest := ⟨"alice", "guess"⟩

def malloryGuesses : AuthenticateRequest := ⟨"mallory", "guess"⟩

theorem aliceGuesses_valid : validateAuthenticateRequest aliceGuesses = .ok () := by decide

theorem malloryGuesses_valid : validateAuthenticateRequest malloryGuesses = .ok () := by decide

theorem not_hidesInside_authenticate : ¬ HidesInside .authenticate := by
  intro hhides
  have htexts := hhides staffService aliceAuth sampleValidator sampleKMS _ _
    (.unauthenticated aliceGuesses_valid (aliceAuth_wrong 0 0 ""))
    (.unauthenticated malloryGuesses_valid (aliceAuth_unknown 0 0 "")) rfl
  revert htexts
  decide

/-- The errors of the JWT library. -/
def tokenExpired : Err := .new "token has invalid claims: token is expired"

def tokenMalformed : Err :=
  .new "token is malformed: token contains an invalid number of segments"

/-- The token of `root` after its time. -/
theorem validateToken_expired : (TokenManager.new 0).validateToken rootLogin.jwt (15 * minute)
    (15 * minute) "t" = .error tokenExpired := by
  rfl

/-- A text that is no token. -/
theorem validateToken_malformed : (TokenManager.new 0).validateToken rootLogin.jwt 0 0 "x" =
    .error tokenMalformed := by
  rfl

theorem bearerCall_token (rpc : RPC) {token : String} (h : token = "t" ∨ token = "x") :
    bearerToken (bearerCall rpc token).incomingMetadata = .ok token := by
  rcases h with rfl | rfl <;> rfl

/-- The interceptor hides nothing of its errors. -/
theorem not_hides_protected {rpc : RPC} (h : rpc.Protected) : ¬ Hides rpc := by
  intro hhides
  have hmethod : ∀ token, (bearerCall rpc token).fullMethod = rpc.fullMethod := fun _ => rfl
  have htexts := hhides staffService rootLogin sampleValidator sampleKMS _ _
    (.token (hmethod "t") h (bearerCall_token rpc (.inl rfl)) validateToken_expired)
    (.token (hmethod "x") h (bearerCall_token rpc (.inr rfl)) validateToken_malformed) rfl
  revert htexts
  decide

theorem hidesInside_iff (rpc : RPC) : HidesInside rpc ↔ rpc.sanitized = true := by
  constructor
  · intro hhides
    cases rpc with
    | authenticate => exact absurd hhides not_hidesInside_authenticate
    | batchCreateKeys | batchGetKeys | batchGetKeyMetadata | batchRotateKeys | batchRevokeKeys
    | batchUpdateKeyMetadata =>
      exact absurd hhides (not_hidesInside_batch rfl (by decide) rfl)
    | _ => rfl
  · intro h p a rv kms f f' hf hf' hrule
    rw [hf.text_eq h, hf'.text_eq h, sanitizeError_congr hrule]

/-- Where there is no token to be refused, the failures are those behind the interceptor. -/
theorem hides_iff_inside {rpc : RPC} (h : ¬ rpc.Protected) : Hides rpc ↔ HidesInside rpc := by
  constructor
  · intro hhides p a rv kms f f' hf hf'
    exact hhides p a rv kms f f' (.inside hf) (.inside hf')
  · intro hhides p a rv kms f f' hf hf'
    cases hf with
    | token _ hprotected => exact absurd hprotected h
    | inside hf =>
      cases hf' with
      | token _ hprotected => exact absurd hprotected h
      | inside hf' => exact hhides p a rv kms f f' hf hf'

/-- **Which RPCs hide the errors of the server from their clients**: `HealthCheck`, and of the
requests that the interceptor lets in those that are answered with a status only, which is made with
`sanitizeError`. -/
theorem hides_iff_sanitized (rpc : RPC) :
    (Hides rpc ↔ rpc = .healthCheck) ∧ (HidesInside rpc ↔ rpc.sanitized = true) := by
  refine ⟨?_, hidesInside_iff rpc⟩
  cases rpc with
  | healthCheck =>
    have hinside : HidesInside .healthCheck := (hidesInside_iff .healthCheck).mpr rfl
    exact ⟨fun _ => rfl, fun _ => (hides_iff_inside (by decide)).mpr hinside⟩
  | authenticate =>
    refine ⟨fun hhides => ?_, fun h => by cases h⟩
    exact absurd ((hides_iff_inside (by decide)).mp hhides) not_hidesInside_authenticate
  | _ => exact ⟨fun hhides => absurd hhides (not_hides_protected (by decide)), fun h => by cases h⟩

/-- What evaluation finds of the texts of a response, when calls fail with `e`, holds of a run. -/
theorem exists_faulty_run {α : Type} (e : Err) (p : Svc α) (w : World) (check : α → Bool)
    (h : ((Prog.exec (faulty e) p w).any fun out => out.1.toOption.any check) = true) :
    ∃ a w', Act.Runs (worldSem googleUUID faultyKMS) p w (.ok a) w' ∧ check a = true := by
  obtain ⟨r, w', hrun, hcheck⟩ := Prog.exists_runs (faulty_sound e) p w _ h
  cases r with
  | error e' => cases hcheck
  | ok a => exact ⟨a, w', hrun, hcheck⟩

/-- **The client reads the error of the database and of the JWT library, and learns which clients
exist.** A rotation of one key, in a batch, fails with two errors that no rule knows, and answers
with two texts; for a client that is there and one that is not `Authenticate` answers with two
texts; and so does the interceptor in front of `GetKey`, for a token that has expired and one that
is none. -/
theorem failure_texts_tell :
    (∃ resp w', Act.Runs (worldSem staffService.keyService.uuid faultyKMS)
      (staffService.batchRotateKeys rootContext rootRotates) aliceKey (.ok resp) w' ∧
      resp.errorTexts =
        ["failed to get current key: dial tcp 10.0.0.5:5432: connection refused"]) ∧
    (∃ resp w', Act.Runs (worldSem staffService.keyService.uuid faultyKMS)
      (staffService.batchRotateKeys rootContext rootRotates) aliceKey (.ok resp) w' ∧
      resp.errorTexts =
        ["failed to get current key: could not extend file: No space left on device"]) ∧
    connectionRefused.rule = diskFull.rule ∧
    aliceAuth.serve 0 0 "" aliceGuesses = .error ⟨.unauthenticated,
      "authentication failed: authentication failed: invalid credentials"⟩ ∧
    aliceAuth.serve 0 0 "" malloryGuesses = .error ⟨.unauthenticated,
      "authentication failed: authentication failed: client not found: client ID 'mallory'"⟩ ∧
    authenticationInterceptor boundless rootLogin.jwt (.new 0) (15 * minute) (15 * minute)
      (15 * minute) (bearerCall .getKey "t") ∅ = (.error ⟨.unauthenticated,
        "invalid token: token has invalid claims: token is expired"⟩, ∅) ∧
    authenticationInterceptor boundless rootLogin.jwt (.new 0) 0 0 0 (bearerCall .getKey "x") ∅ =
      (.error ⟨.unauthenticated,
        "invalid token: token is malformed: token contains an invalid number of segments"⟩, ∅) ∧
    tokenExpired.rule = tokenMalformed.rule ∧
    ¬ HidesInside .batchRotateKeys ∧ ¬ HidesInside .authenticate ∧ ¬ Hides .getKey := by
  have hprotected : RPC.getKey.Protected := by decide
  have hmethod : ∀ token, (bearerCall .getKey token).fullMethod = RPC.getKey.fullMethod :=
    fun _ => rfl
  refine ⟨?_, ?_, rfl, by decide, by decide, ?_, ?_, rfl,
    not_hidesInside_batch rfl (by decide) rfl, not_hidesInside_authenticate,
    not_hides_protected hprotected⟩
  · obtain ⟨resp, w', hrun, hcheck⟩ := exists_faulty_run connectionRefused
      (staffService.batchRotateKeys rootContext rootRotates) aliceKey (fun resp =>
        resp.errorTexts = ["failed to get current key: " ++ connectionRefused.text])
      (by decide +kernel)
    exact ⟨resp, w', hrun, of_decide_eq_true hcheck⟩
  · obtain ⟨resp, w', hrun, hcheck⟩ := exists_faulty_run diskFull
      (staffService.batchRotateKeys rootContext rootRotates) aliceKey (fun resp =>
        resp.errorTexts = ["failed to get current key: " ++ diskFull.text])
      (by decide +kernel)
    exact ⟨resp, w', hrun, of_decide_eq_true hcheck⟩
  · exact interceptor_token boundless ∅ _ (hmethod "t") hprotected
      (bearerCall_token .getKey (.inl rfl)) validateToken_expired
  · exact interceptor_token boundless ∅ _ (hmethod "x") hprotected
      (bearerCall_token .getKey (.inr rfl)) validateToken_malformed

end Polykey
