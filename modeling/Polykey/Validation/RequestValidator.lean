/-
# Request validation

`internal/validation`: `RequestValidator` and `QueryValidator`, check by check.  Each check of a
field ends in a lemma that says exactly what it accepts, in terms of the field and not of the code:
`TagsOk`, `ContextsOk`, `PoliciesOk`, `ClassificationOk`.

* **Maps.**  The loops over tags and policies range over a Go map, whose order is not specified.
  `rangeMap` is one order for each map; which error is reported depends on it, whether there is one
  does not.
* **JSON.** `json.Marshal` is used for the length of the request and `json.Unmarshal` to see
  whether a policy is JSON.  The length of the request is passed to the check, because it also
  depends on fields that nothing else reads.
-/
import Mathlib.Data.String.Basic
import Polykey.Service.Calls

namespace Polykey

/-! ## 1. Patterns -/

def isLetter (c : Char) : Bool := ('a' ≤ c && c ≤ 'z') || ('A' ≤ c && c ≤ 'Z')

def isDigit (c : Char) : Bool := '0' ≤ c && c ≤ '9'

/-- `^[first][rest]{0,n}$`. -/
def matchesPattern (first rest : Char → Bool) (n : Nat) (s : String) : Bool :=
  match s.toList with
  | [] => false
  | c :: cs => first c && cs.length ≤ n && cs.all rest

/-- `tagKeyRegex`: `^[a-zA-Z][a-zA-Z0-9_-]{0,127}$`. -/
def tagKeyRegex : String → Bool :=
  matchesPattern isLetter (fun c => isLetter c || isDigit c || c = '_' || c = '-') 127

/-- `contextRegex`: `^[a-zA-Z0-9][a-zA-Z0-9._-]{0,255}$`. -/
def contextRegex : String → Bool :=
  matchesPattern (fun c => isLetter c || isDigit c)
    (fun c => isLetter c || isDigit c || c = '.' || c = '_' || c = '-') 255

/-- `uuidRegex`: groups of 8, 4, 4, 4 and 12 lower-case hexadecimal digits. -/
def uuidRegex (s : String) : Bool :=
  s.length = 36 && s.toList.zipIdx.all fun (c, i) =>
    if i ∈ [8, 13, 18, 23] then c = '-' else isDigit c || ('a' ≤ c && c ≤ 'f')

/-- `strings.ContainsAny`. -/
def containsAny (s chars : String) : Bool := s.toList.any fun c => c ∈ chars.toList

/-! ## 2. The validator -/

def maxMetadataSize : Nat := 64 * 1024
def maxTagCount : Nat := 50
def maxTagKeyLen : Nat := 128
def maxTagValueLen : Nat := 256
def maxDescriptionLen : Nat := 1024
def maxAuthorizedContexts : Nat := 100
def maxAccessPolicies : Nat := 50
def maxDataClassificationLen : Nat := 50

def allowedDataClassifications : List String := ["public", "confidential", "secret"]

/-- What the validator uses of the language and of `encoding/json`. -/
structure RequestValidator where
  /-- the entries of a map, in the order in which a loop meets them -/
  rangeMap : StringMap → List (String × String)
  mem_rangeMap : ∀ m k v, (k, v) ∈ rangeMap m ↔ m.lookup k = some v
  /-- `json.Unmarshal` of a policy -/
  unmarshal : String → Except Err Unit

/-- A loop that stops at the first error. -/
def checkAll {α : Type} (check : α → Except Err Unit) : List α → Except Err Unit
  | [] => .ok ()
  | a :: as =>
    match check a with
    | .error e => .error e
    | .ok () => checkAll check as

theorem checkAll_ok {α : Type} {check : α → Except Err Unit} {as : List α} :
    checkAll check as = .ok () ↔ ∀ a ∈ as, check a = .ok () := by
  induction as with
  | nil => simp [checkAll]
  | cons a as ih =>
    cases h : check a with
    | error e => simp [checkAll, h]
    | ok _ => simp [checkAll, h, ih]

@[simp] theorem mapError_eq_ok {f : Err → Err} {x : Except Err Unit} :
    x.mapError f = .ok () ↔ x = .ok () := by
  cases x with
  | error e => simp [Except.mapError]
  | ok u => simp [Except.mapError]

theorem map_eq_ok {α β : Type} {f : α → β} {x : Except Err α} {b : β} :
    x.map f = .ok b ↔ ∃ a, x = .ok a ∧ f a = b := by
  cases x with
  | error e => simp [Except.map]
  | ok a => simp [Except.map]

/-- Checks made one after another all pass. -/
@[simp] theorem bind_eq_ok {x y : Except Err Unit} :
    (x >>= fun _ => y) = .ok () ↔ x = .ok () ∧ y = .ok () := by
  cases x with
  | error e => simp [bind, Except.bind]
  | ok u => simp [bind, Except.bind]

namespace RequestValidator

variable (rv : RequestValidator)

/-- `validateRequestSize`, given what `json.Marshal` makes of the request: the number of bytes. -/
def validateRequestSize (size : Except Err Nat) : Except Err Unit :=
  match size with
  | .error e => .error (e.wrap "failed to estimate request size: ")
  | .ok n =>
    if maxMetadataSize < n then
      .error (.new ("request size " ++ toString n ++ " exceeds maximum of " ++
        toString maxMetadataSize ++ " bytes"))
    else .ok ()

/-- One turn of the loop of `validateTags`. -/
def validateTag : String × String → Except Err Unit := fun (k, v) =>
  if maxTagKeyLen < k.utf8ByteSize then
    .error (.new ("tag key '" ++ k ++ "' exceeds maximum length of " ++ toString maxTagKeyLen))
  else if maxTagValueLen < v.utf8ByteSize then
    .error (.new ("tag value for key '" ++ k ++ "' exceeds maximum length of " ++
      toString maxTagValueLen))
  else if !tagKeyRegex k then .error (.new ("invalid tag key format: '" ++ k ++ "'"))
  else if containsAny v "<>\"'" then
    .error (.new "tag value contains invalid characters")
  else .ok ()

/-- `validateTags`. -/
def validateTags (tags : StringMap) : Except Err Unit :=
  if maxTagCount < tags.keys.card then
    .error (.new ("tag count " ++ toString tags.keys.card ++ " exceeds maximum of " ++
      toString maxTagCount))
  else checkAll validateTag (rv.rangeMap tags)

/-- The loop of `validateAuthorizedContexts`. -/
def validateContexts (seen : List String) : List String → Except Err Unit
  | [] => .ok ()
  | ctx :: contexts =>
    if ctx ∈ seen then .error (.new ("duplicate authorized context: " ++ ctx))
    else if !contextRegex ctx then
      .error (.new ("invalid authorized context format: '" ++ ctx ++ "'"))
    else validateContexts (ctx :: seen) contexts

/-- `validateAuthorizedContexts`. -/
def validateAuthorizedContexts (contexts : List String) : Except Err Unit :=
  if maxAuthorizedContexts < contexts.length then
    .error (.new ("authorized contexts count " ++ toString contexts.length ++
      " exceeds maximum of " ++ toString maxAuthorizedContexts))
  else validateContexts [] contexts

/-- One turn of the loop of `validateAccessPolicies`. -/
def validatePolicy : String × String → Except Err Unit := fun (name, policy) =>
  if !tagKeyRegex name then .error (.new ("invalid policy name format: '" ++ name ++ "'"))
  else match rv.unmarshal policy with
    | .error e => .error (e.wrap ("invalid policy JSON for '" ++ name ++ "': "))
    | .ok () => .ok ()

/-- `validateAccessPolicies`. -/
def validateAccessPolicies (policies : StringMap) : Except Err Unit :=
  if maxAccessPolicies < policies.keys.card then
    .error (.new ("access policies count " ++ toString policies.keys.card ++
      " exceeds maximum of " ++ toString maxAccessPolicies))
  else checkAll rv.validatePolicy (rv.rangeMap policies)

/-- `validateDataClassification`. -/
def validateDataClassification (classification : String) : Except Err Unit :=
  if classification = "" then .ok ()
  else if maxDataClassificationLen < classification.utf8ByteSize then
    .error (.new ("data classification exceeds maximum length of " ++
      toString maxDataClassificationLen ++ " characters"))
  else if classification ∉ allowedDataClassifications then
    .error (.new ("invalid data classification: '" ++ classification ++ "'"))
  else .ok ()

/-- The check of a description's length; its limit is not that of `domain.NewDescription`. -/
def validateDescription (description : String) : Except Err Unit :=
  if maxDescriptionLen < description.utf8ByteSize then
    .error (.new ("description exceeds maximum length of " ++ toString maxDescriptionLen ++
      " characters"))
  else .ok ()

/-- What `ValidateCreateKeyRequest` checks of the fields that are stored. -/
def validateCreateKeyItem (item : CreateKeyItem) : Except Err Unit := do
  (rv.validateTags item.tags).mapError (Err.wrap "tag validation failed: ")
  (validateAuthorizedContexts item.initialAuthorizedContexts).mapError
    (Err.wrap "authorized contexts validation failed: ")
  (rv.validateAccessPolicies item.accessPolicies).mapError
    (Err.wrap "access policies validation failed: ")
  (validateDataClassification item.dataClassification).mapError
    (Err.wrap "data classification validation failed: ")

/-- `ValidateCreateKeyRequest`. -/
def validateCreateKeyRequest (size : Except Err Nat) (req : CreateKeyRequest) :
    Except Err Unit := do
  (validateRequestSize size).mapError (Err.wrap "request size validation failed: ")
  if req.item.keyType = .unspecified then .error (.new "key type is required")
  else
    validateDescription req.item.description
    rv.validateCreateKeyItem req.item

/-- What `ValidateUpdateKeyMetadataRequest` checks of the changes. -/
def validateUpdateItem (item : UpdateKeyMetadataItem) : Except Err Unit := do
  (rv.validateTags item.tagsToAdd).mapError (Err.wrap "tags_to_add validation failed: ")
  (validateAuthorizedContexts item.contextsToAdd).mapError
    (Err.wrap "contexts_to_add validation failed: ")
  (validateAuthorizedContexts item.contextsToRemove).mapError
    (Err.wrap "contexts_to_remove validation failed: ")
  (rv.validateAccessPolicies item.policiesToUpdate).mapError
    (Err.wrap "policies_to_update validation failed: ")
  (validateDataClassification (item.dataClassification.getD "")).mapError
    (Err.wrap "data classification validation failed: ")

/-- `ValidateUpdateKeyMetadataRequest`. -/
def validateUpdateKeyMetadataRequest (size : Except Err Nat) (req : UpdateKeyMetadataRequest) :
    Except Err Unit := do
  (validateRequestSize size).mapError (Err.wrap "request size validation failed: ")
  if req.item.keyId = "" then .error (.new "key_id is required")
  else
    validateDescription (req.item.description.getD "")
    rv.validateUpdateItem req.item

/-- The four checks of a request that names a key and a requester: `ValidateGetKeyRequest`,
`ValidateRotateKeyRequest`, `ValidateRevokeKeyRequest` and `ValidateGetKeyMetadataRequest`. -/
def validateKeyRequest (keyId : String) (requesterContext : Option RequesterContext) :
    Except Err Unit :=
  if keyId = "" then .error (.new "key_id is required")
  else if !uuidRegex keyId then .error (.new "invalid key_id format: must be a UUID")
  else if requesterContext = none then .error (.new "requester_context is required")
  else .ok ()

def validateGetKeyRequest (req : GetKeyRequest) : Except Err Unit :=
  validateKeyRequest req.keyId req.requesterContext

def validateRotateKeyRequest (req : RotateKeyRequest) : Except Err Unit :=
  validateKeyRequest req.item.keyId req.requesterContext

def validateRevokeKeyRequest (req : RevokeKeyRequest) : Except Err Unit :=
  validateKeyRequest req.keyId req.requesterContext

def validateGetKeyMetadataRequest (req : GetKeyMetadataRequest) : Except Err Unit :=
  validateKeyRequest req.keyId req.requesterContext

end RequestValidator

/-! ## 3. `QueryValidator` -/

def maxQueryLimit : Int := 1000
def defaultQueryLimit : Int := 100

/-- The fields of a list request that only the validator reads. -/
structure ListFilters where
  tagFilters : StringMap
  createdAfter : Option Time
  createdBefore : Option Time

/-- `isValidPageToken`. -/
def isValidPageToken (token : String) : Bool :=
  token.utf8ByteSize < 256 && !containsAny token ";'\"<>\""

/-- `365*24*time.Hour`. -/
def maxTimeRange : Duration := 365 * 24 * 60 * minute

/-- The check of the filters and of the time range. -/
def validateListFilters (rv : RequestValidator) (filters : ListFilters) : Except Err Unit := do
  checkAll (fun (k, v) => if containsAny k ";'\"" || containsAny v ";'\"" then
    .error (.new "invalid characters in tag filter") else .ok ()) (rv.rangeMap filters.tagFilters)
  match filters.createdAfter, filters.createdBefore with
  | some created, some before =>
    if before < created then .error (.new "created_after must be before created_before")
    else if maxTimeRange < before - created then
      .error (.new "time range too wide (max 1 year)")
    else .ok ()
  | _, _ => .ok ()

/-- `ValidateListKeysRequest`: the request that goes on has a page size. -/
def validateListKeysRequest (rv : RequestValidator) (filters : ListFilters)
    (req : ListKeysRequest) : Except Err ListKeysRequest :=
  if req.pageSize < 0 then .error (.new "page_size cannot be negative")
  else if maxQueryLimit < req.pageSize then
    .error (.new ("page_size " ++ toString req.pageSize ++ " exceeds maximum of " ++
      toString maxQueryLimit))
  else if req.pageToken ≠ "" ∧ !isValidPageToken req.pageToken then
    .error (.new "invalid page token format")
  else (validateListFilters rv filters).map fun _ =>
    if req.pageSize = 0 then { req with pageSize := defaultQueryLimit } else req

/-! ## 4. What the checks accept -/

/-- A tag is within the limits. -/
structure TagOk (k v : String) : Prop where
  key : tagKeyRegex k = true
  len : v.utf8ByteSize ≤ maxTagValueLen
  value : containsAny v "<>\"'" = false

/-- The tags are within the limits. -/
structure TagsOk (tags : StringMap) : Prop where
  count : tags.keys.card ≤ maxTagCount
  tag : ∀ k v, tags.lookup k = some v → TagOk k v

/-- The contexts are within the limits. -/
structure ContextsOk (contexts : List String) : Prop where
  count : contexts.length ≤ maxAuthorizedContexts
  nodup : contexts.Nodup
  context : ∀ c ∈ contexts, contextRegex c = true

/-- A policy is within the limits. -/
structure PolicyOk (rv : RequestValidator) (name policy : String) : Prop where
  name : tagKeyRegex name = true
  json : rv.unmarshal policy = .ok ()

/-- The policies are within the limits. -/
structure PoliciesOk (rv : RequestValidator) (policies : StringMap) : Prop where
  count : policies.keys.card ≤ maxAccessPolicies
  policy : ∀ name policy, policies.lookup name = some policy → PolicyOk rv name policy

/-- The classification is one of those allowed, or there is none. -/
def ClassificationOk (classification : String) : Prop :=
  classification = "" ∨ classification ∈ allowedDataClassifications

theorem isLetter_le {c : Char} (h : isLetter c = true) : c ≤ 'z' := by
  simp only [isLetter, Bool.or_eq_true, Bool.and_eq_true, decide_eq_true_eq] at h
  rcases h with h | h
  · exact h.2
  · exact le_trans h.2 (by decide)

theorem isDigit_le {c : Char} (h : isDigit c = true) : c ≤ 'z' := by
  simp only [isDigit, Bool.and_eq_true, decide_eq_true_eq] at h
  exact le_trans h.2 (by decide)

/-- Characters up to `z` take one byte each. -/
theorem utf8Len_eq_length {cs : List Char} (h : ∀ c ∈ cs, c ≤ 'z') :
    String.utf8Len cs = cs.length := by
  induction cs with
  | nil => rfl
  | cons c cs ih =>
    have hval : c.val ≤ 0x7f := UInt32.le_trans (h c (by simp)) (by decide)
    have hsize : c.utf8Size = 1 := if_pos hval
    rw [String.utf8Len_cons, ih fun c' hc' => h c' (by simp [hc']), hsize, List.length_cons]

/-- A tag key that matches the pattern is not too long either. -/
theorem utf8ByteSize_le_of_tagKeyRegex {k : String} (h : tagKeyRegex k = true) :
    k.utf8ByteSize ≤ maxTagKeyLen := by
  rw [← String.ofList_toList (s := k), String.utf8ByteSize_ofList]
  unfold tagKeyRegex matchesPattern at h
  split at h
  · cases h
  · rename_i c cs hk
    simp only [Bool.and_eq_true, decide_eq_true_eq, List.all_eq_true, Bool.or_eq_true] at h
    obtain ⟨⟨hfirst, hlen⟩, hrest⟩ := h
    rw [hk, utf8Len_eq_length, List.length_cons]
    · unfold maxTagKeyLen
      omega
    · intro c' hc'
      rcases List.mem_cons.mp hc' with rfl | hmem
      · exact isLetter_le hfirst
      rcases hrest c' hmem with ((hletter | hdigit) | rfl) | rfl
      · exact isLetter_le hletter
      · exact isDigit_le hdigit
      · decide
      · decide

theorem validateTag_ok {k v : String} :
    RequestValidator.validateTag (k, v) = .ok () ↔ TagOk k v := by
  simp only [RequestValidator.validateTag]
  constructor
  · intro h
    split at h
    · cases h
    split at h
    · cases h
    split at h
    · cases h
    split at h
    · cases h
    · simp_all only [Bool.not_eq_true', Bool.not_eq_false, Bool.not_eq_true]
      exact ⟨by assumption, by omega, by assumption⟩
  · rintro ⟨hkey, hlen, hvalue⟩
    have hkeyLen := utf8ByteSize_le_of_tagKeyRegex hkey
    rw [if_neg (by omega), if_neg (by omega)]
    simp [hkey, hvalue]

/-- **`validateTags` accepts the tags within the limits.** -/
theorem validateTags_ok {rv : RequestValidator} {tags : StringMap} :
    rv.validateTags tags = .ok () ↔ TagsOk tags := by
  unfold RequestValidator.validateTags
  split
  · rename_i hcount
    simp only [reduceCtorEq, false_iff]
    intro h
    have := h.count
    omega
  · rename_i hcount
    rw [checkAll_ok]
    constructor
    · intro h
      refine ⟨by omega, fun k v hkv => validateTag_ok.mp ?_⟩
      exact h (k, v) ((rv.mem_rangeMap _ _ _).mpr hkv)
    · rintro h ⟨k, v⟩ hkv
      exact validateTag_ok.mpr (h.tag k v ((rv.mem_rangeMap _ _ _).mp hkv))

theorem validateContexts_ok {seen contexts : List String} :
    RequestValidator.validateContexts seen contexts = .ok () ↔
      contexts.Nodup ∧ ∀ c ∈ contexts, c ∉ seen ∧ contextRegex c = true := by
  induction contexts generalizing seen with
  | nil => simp [RequestValidator.validateContexts]
  | cons ctx contexts ih =>
    unfold RequestValidator.validateContexts
    split
    · rename_i hseen
      simp [hseen]
    split
    · rename_i hregex
      simp only [Bool.not_eq_eq_eq_not] at hregex
      simp [hregex]
    · rename_i hseen hregex
      simp only [Bool.not_eq_true, Bool.not_eq_false'] at hregex
      rw [ih, List.nodup_cons, List.forall_mem_cons]
      constructor
      · rintro ⟨hnodup, hall⟩
        refine ⟨⟨fun hmem => (hall ctx hmem).1 (by simp), hnodup⟩, ⟨hseen, hregex⟩, ?_⟩
        intro c hc
        exact ⟨fun hmem => (hall c hc).1 (by simp [hmem]), (hall c hc).2⟩
      · rintro ⟨⟨hnot, hnodup⟩, -, hall⟩
        refine ⟨hnodup, fun c hc => ⟨?_, (hall c hc).2⟩⟩
        simp only [List.mem_cons, not_or]
        exact ⟨fun heq => hnot (heq ▸ hc), (hall c hc).1⟩

/-- **`validateAuthorizedContexts` accepts the contexts within the limits.** -/
theorem validateAuthorizedContexts_ok {contexts : List String} :
    RequestValidator.validateAuthorizedContexts contexts = .ok () ↔ ContextsOk contexts := by
  unfold RequestValidator.validateAuthorizedContexts
  split
  · rename_i hcount
    simp only [reduceCtorEq, false_iff]
    intro h
    have := h.count
    omega
  · rename_i hcount
    rw [validateContexts_ok]
    constructor
    · rintro ⟨hnodup, hall⟩
      exact ⟨by omega, hnodup, fun c hc => (hall c hc).2⟩
    · rintro ⟨-, hnodup, hall⟩
      exact ⟨hnodup, fun c hc => ⟨by simp, hall c hc⟩⟩

theorem validatePolicy_ok {rv : RequestValidator} {name policy : String} :
    rv.validatePolicy (name, policy) = .ok () ↔ PolicyOk rv name policy := by
  simp only [RequestValidator.validatePolicy]
  constructor
  · intro h
    split at h
    · cases h
    · rename_i hname
      simp only [Bool.not_eq_true', Bool.not_eq_false] at hname
      split at h
      · cases h
      · exact ⟨hname, by assumption⟩
  · rintro ⟨hname, hjson⟩
    simp [hname, hjson]

/-- **`validateAccessPolicies` accepts the policies within the limits.** -/
theorem validateAccessPolicies_ok {rv : RequestValidator} {policies : StringMap} :
    rv.validateAccessPolicies policies = .ok () ↔ PoliciesOk rv policies := by
  unfold RequestValidator.validateAccessPolicies
  split
  · rename_i hcount
    simp only [reduceCtorEq, false_iff]
    intro h
    have := h.count
    omega
  · rename_i hcount
    rw [checkAll_ok]
    constructor
    · intro h
      refine ⟨by omega, fun name policy hp => validatePolicy_ok.mp ?_⟩
      exact h (name, policy) ((rv.mem_rangeMap _ _ _).mpr hp)
    · rintro h ⟨name, policy⟩ hp
      exact validatePolicy_ok.mpr (h.policy name policy ((rv.mem_rangeMap _ _ _).mp hp))

/-- **`validateDataClassification` accepts the classifications allowed.** -/
theorem validateDataClassification_ok {classification : String} :
    RequestValidator.validateDataClassification classification = .ok () ↔
      ClassificationOk classification := by
  have hlen : ∀ c ∈ allowedDataClassifications, c.utf8ByteSize ≤ maxDataClassificationLen := by
    decide
  unfold RequestValidator.validateDataClassification ClassificationOk
  split
  · simp_all
  split
  · rename_i hempty hlong
    simp only [reduceCtorEq, false_iff, not_or]
    refine ⟨hempty, fun hmem => ?_⟩
    have := hlen _ hmem
    omega
  split
  · simp_all
  · simp_all

/-- **What is checked of a creation.** -/
theorem validateCreateKeyItem_ok {rv : RequestValidator} {item : CreateKeyItem} :
    rv.validateCreateKeyItem item = .ok () ↔
      TagsOk item.tags ∧ ContextsOk item.initialAuthorizedContexts ∧
      PoliciesOk rv item.accessPolicies ∧ ClassificationOk item.dataClassification := by
  simp only [RequestValidator.validateCreateKeyItem, bind_eq_ok, mapError_eq_ok, validateTags_ok,
    validateAuthorizedContexts_ok, validateAccessPolicies_ok, validateDataClassification_ok]

/-- **What is checked of an update.** -/
theorem validateUpdateItem_ok {rv : RequestValidator} {item : UpdateKeyMetadataItem} :
    rv.validateUpdateItem item = .ok () ↔
      TagsOk item.tagsToAdd ∧ ContextsOk item.contextsToAdd ∧ ContextsOk item.contextsToRemove ∧
      PoliciesOk rv item.policiesToUpdate ∧
      ClassificationOk (item.dataClassification.getD "") := by
  simp only [RequestValidator.validateUpdateItem, bind_eq_ok, mapError_eq_ok, validateTags_ok,
    validateAuthorizedContexts_ok, validateAccessPolicies_ok, validateDataClassification_ok]

theorem validateCreateKeyRequest_ok {rv : RequestValidator} {size : Except Err Nat}
    {req : CreateKeyRequest} (h : rv.validateCreateKeyRequest size req = .ok ()) :
    rv.validateCreateKeyItem req.item = .ok () := by
  simp only [RequestValidator.validateCreateKeyRequest, bind_eq_ok] at h
  obtain ⟨-, h⟩ := h
  split at h
  · cases h
  · exact (bind_eq_ok.mp h).2

theorem validateUpdateKeyMetadataRequest_ok {rv : RequestValidator} {size : Except Err Nat}
    {req : UpdateKeyMetadataRequest}
    (h : rv.validateUpdateKeyMetadataRequest size req = .ok ()) :
    rv.validateUpdateItem req.item = .ok () := by
  simp only [RequestValidator.validateUpdateKeyMetadataRequest, bind_eq_ok] at h
  obtain ⟨-, h⟩ := h
  split at h
  · cases h
  · exact (bind_eq_ok.mp h).2

end Polykey
