/-
# The validation interceptor and what is stored

`interceptors.UnaryValidationInterceptor` looks the type of a request up in `validationMap` and
refuses the request if the check found there fails.  The map has the single requests and none of
the batch requests.

What is stored is metadata, not requests, and it comes from four writing calls.  A creation stores
the checked fields as they are.  An update adds its tags to those that are there, so that the number
of tags is checked for the request and not for the key.  A batch stores items that nobody checked.
`storedKeys_withinLimits` is therefore about the runs in which the items of a batch meet what is
checked of single requests, and in which an update finds room for what it adds.

Whose read it is decides what has to fit, so the calls of a run carry the request they are made for.
-/
import Mathlib
import Polykey.Service.Metadata
import Polykey.Service.Scenario
import Polykey.Validation.RequestValidator

namespace Polykey

open Lib PSQLAdapter

/-! ## 1. The interceptor -/

/-- A request as the interceptor gets it: the call, what `json.Marshal` makes of it, and the fields
of a list request that the service does not read. -/
structure IncomingRequest where
  call : ServiceCall
  size : Except Err Nat
  filters : ListFilters

/-- `UnaryValidationInterceptor`: the request that is handed on, or the error that is classified.  A
turn of the rotation worker is no request and passes. -/
def unaryValidationInterceptor (rv : RequestValidator) (inc : IncomingRequest) :
    Except Err ServiceCall :=
  match inc.call with
  | .createKey req => (rv.validateCreateKeyRequest inc.size req).map fun _ => .createKey req
  | .updateKeyMetadata req =>
    (rv.validateUpdateKeyMetadataRequest inc.size req).map fun _ => .updateKeyMetadata req
  | .listKeys req => (validateListKeysRequest rv inc.filters req).map .listKeys
  | .getKey req => (RequestValidator.validateGetKeyRequest req).map fun _ => .getKey req
  | .rotateKey req => (RequestValidator.validateRotateKeyRequest req).map fun _ => .rotateKey req
  | .revokeKey req => (RequestValidator.validateRevokeKeyRequest req).map fun _ => .revokeKey req
  | .getKeyMetadata req =>
    (RequestValidator.validateGetKeyMetadataRequest req).map fun _ => .getKeyMetadata req
  | call => .ok call

/-- What is known of a call that the interceptor has handed on. -/
def Checked (rv : RequestValidator) : ServiceCall → Prop
  | .createKey req => rv.validateCreateKeyItem req.item = .ok ()
  | .updateKeyMetadata req => rv.validateUpdateItem req.item = .ok ()
  | _ => True

theorem interceptor_checked {rv : RequestValidator} {inc : IncomingRequest} {call : ServiceCall}
    (h : unaryValidationInterceptor rv inc = .ok call) : Checked rv call := by
  obtain ⟨c, size, filters⟩ := inc
  cases c with
  | createKey req =>
    obtain ⟨_, hcheck, rfl⟩ := map_eq_ok.mp h
    exact validateCreateKeyRequest_ok hcheck
  | updateKeyMetadata req =>
    obtain ⟨_, hcheck, rfl⟩ := map_eq_ok.mp h
    exact validateUpdateKeyMetadataRequest_ok hcheck
  | listKeys _ | getKey _ | rotateKey _ | revokeKey _ | getKeyMetadata _ =>
    obtain ⟨_, -, rfl⟩ := map_eq_ok.mp h
    trivial
  | batchCreateKeys _ | batchGetKeys _ | batchGetKeyMetadata _ | batchRotateKeys _
  | batchRevokeKeys _ | batchUpdateKeyMetadata _ | worker =>
    cases h
    trivial

/-! ## 2. Metadata within the limits

Each writing call is compared with what is checked of its request. These are equivalences, so
that the conditions on a run below are not stronger than they have to be. -/

/-- The limits of the validator, for the metadata of a key. -/
structure WithinLimits (rv : RequestValidator) (m : KeyMetadata) : Prop where
  tags : TagsOk m.tags
  contexts : ContextsOk m.authorizedContexts
  policies : PoliciesOk rv m.accessPolicies
  classification : ClassificationOk m.dataClassification

/-- The metadata that a creation builds is within the limits if the request passes the check, and
only then. -/
theorem builds_withinLimits {rv : RequestValidator} {s : KeyService} {item : CreateKeyItem}
    {identity : String} {profile : StorageProfile} {key : Key} {m : KeyMetadata}
    (h : s.Builds item identity profile key) (hm : key.metadata = some m) :
    WithinLimits rv m ↔ rv.validateCreateKeyItem item = .ok () := by
  obtain ⟨keyID, now, description, dek, rfl⟩ := h
  cases hm
  rw [validateCreateKeyItem_ok]
  constructor
  · rintro ⟨htags, hcontexts, hpolicies, hclass⟩
    exact ⟨htags, hcontexts, hpolicies, hclass⟩
  · rintro ⟨htags, hcontexts, hpolicies, hclass⟩
    exact ⟨htags, hcontexts, hpolicies, hclass⟩

/-- The tags that are left after an update are not too many. -/
def HasRoom (item : UpdateKeyMetadataItem) (m : KeyMetadata) : Prop :=
  ((m.tags.keys ∪ item.tagsToAdd.keys) \ item.tagsToRemove.toFinset).card ≤ maxTagCount

/-- What an update brings is within the limits, and there is room for its tags. -/
structure ChangesFit (item : UpdateKeyMetadataItem) (m : KeyMetadata) : Prop where
  room : HasRoom item m
  tag : ∀ k v, item.tagsToAdd.lookup k = some v → k ∉ item.tagsToRemove → TagOk k v
  classification : ∀ c, item.dataClassification = some c → ClassificationOk c

/-- What an item of a batch update brings is within the limits, and there is room for its tags and
its policies. -/
structure ItemFits (rv : RequestValidator) (item : UpdateKeyMetadataItem) (m : KeyMetadata) :
    Prop where
  changes : ChangesFit item m
  room : (m.accessPolicies.keys ∪ item.policiesToUpdate.keys).card ≤ maxAccessPolicies
  policy : ∀ name policy, item.policiesToUpdate.lookup name = some policy →
    PolicyOk rv name policy

/-- An entry of a copied map is a new one, or an old one that was not overwritten. -/
theorem lookup_mapsCopy {dst src : StringMap} {k v : String}
    (h : (KeyService.mapsCopy dst src).lookup k = some v) :
    src.lookup k = some v ∨ dst.lookup k = some v := by
  rw [KeyService.lookup_mapsCopy_eq] at h
  cases hsrc : src.lookup k with
  | none =>
    rw [hsrc] at h
    exact .inr h
  | some v' =>
    rw [hsrc] at h
    exact .inl h

theorem keys_mapsCopy (dst src : StringMap) :
    (KeyService.mapsCopy dst src).keys = dst.keys ∪ src.keys := by
  rw [KeyService.mapsCopy, Finmap.keys_union, Finset.union_comm]

theorem lookup_mapsCopy_new {dst src : StringMap} {k v : String} (h : src.lookup k = some v) :
    (KeyService.mapsCopy dst src).lookup k = some v := by
  rw [KeyService.lookup_mapsCopy_eq, h]
  rfl

section Edits

variable {rv : RequestValidator} {item : UpdateKeyMetadataItem} {m : KeyMetadata}

theorem tagsOk_applyChanges (h : TagsOk m.tags) (description : Option String) :
    TagsOk (KeyService.applyChanges item description m).tags ↔ HasRoom item m ∧
      ∀ k v, item.tagsToAdd.lookup k = some v → k ∉ item.tagsToRemove → TagOk k v := by
  have hkeys : (KeyService.applyChanges item description m).tags.keys =
      (m.tags.keys ∪ item.tagsToAdd.keys) \ item.tagsToRemove.toFinset := by
    rw [← keys_mapsCopy]
    exact KeyService.keys_foldl_erase _ _
  have hlookup : ∀ k, (KeyService.applyChanges item description m).tags.lookup k =
      if k ∈ item.tagsToRemove then none
      else (KeyService.mapsCopy m.tags item.tagsToAdd).lookup k :=
    fun k => KeyService.lookup_foldl_erase k _ _
  constructor
  · rintro ⟨hcount, htag⟩
    rw [hkeys] at hcount
    refine ⟨hcount, fun k v hadd hremove => htag k v ?_⟩
    rw [hlookup, if_neg hremove]
    exact lookup_mapsCopy_new hadd
  · rintro ⟨hroom, htag⟩
    refine ⟨hkeys ▸ hroom, fun k v hkv => ?_⟩
    rw [hlookup] at hkv
    split at hkv
    · cases hkv
    · rename_i hremove
      rcases lookup_mapsCopy hkv with hadd | hold
      · exact htag k v hadd hremove
      · exact h.tag k v hold

theorem classificationOk_applyChanges (h : ClassificationOk m.dataClassification)
    (description : Option String) :
    ClassificationOk (KeyService.applyChanges item description m).dataClassification ↔
      ∀ c, item.dataClassification = some c → ClassificationOk c := by
  cases hc : item.dataClassification with
  | none => simpa [KeyService.applyChanges, hc] using h
  | some c => simp [KeyService.applyChanges, hc]

/-- **An update keeps the limits if its changes fit, and only then.** -/
theorem withinLimits_applyChanges (h : WithinLimits rv m) (description : Option String)
    (now : Time) :
    WithinLimits rv { KeyService.applyChanges item description m with updatedAt := some now } ↔
      ChangesFit item m := by
  constructor
  · intro hnew
    obtain ⟨hroom, htag⟩ := (tagsOk_applyChanges h.tags description).mp hnew.tags
    exact ⟨hroom, htag,
      (classificationOk_applyChanges h.classification description).mp hnew.classification⟩
  · rintro ⟨hroom, htag, hclass⟩
    exact ⟨(tagsOk_applyChanges h.tags description).mpr ⟨hroom, htag⟩, h.contexts, h.policies,
      (classificationOk_applyChanges h.classification description).mpr hclass⟩

/-- **An item of a batch keeps the limits if it fits, and only then.** -/
theorem withinLimits_applyItem (h : WithinLimits rv m) {description : Option String} {now : Time}
    {key : Key} {m' : KeyMetadata}
    (hm' : (KeyService.applyItem item description now key m).metadata = some m') :
    WithinLimits rv m' ↔ ItemFits rv item m := by
  cases hm'
  have hkeys := keys_mapsCopy m.accessPolicies item.policiesToUpdate
  have hchanges : WithinLimits rv
      { KeyService.applyChanges item description m with updatedAt := some now } ↔
      ChangesFit item m := withinLimits_applyChanges h description now
  constructor
  · intro hnew
    refine ⟨hchanges.mp ⟨hnew.tags, h.contexts, h.policies, hnew.classification⟩,
      hkeys ▸ hnew.policies.count, fun name policy hp => ?_⟩
    exact hnew.policies.policy name policy (lookup_mapsCopy_new hp)
  · rintro ⟨hfit, hroom, hpolicy⟩
    obtain ⟨htags, -, -, hclass⟩ := hchanges.mpr hfit
    refine ⟨htags, h.contexts, ⟨hkeys ▸ hroom, fun name policy hp => ?_⟩, hclass⟩
    rcases lookup_mapsCopy hp with hnew | hold
    · exact hpolicy name policy hnew
    · exact h.policies.policy name policy hold

/-- A checked update fits where there is room for its tags. -/
theorem changesFit_of_checked (h : rv.validateUpdateItem item = .ok ()) (hroom : HasRoom item m) :
    ChangesFit item m := by
  obtain ⟨htags, -, -, -, hclass⟩ := validateUpdateItem_ok.mp h
  refine ⟨hroom, fun k v hadd _ => htags.tag k v hadd, fun c hc => ?_⟩
  simpa [hc] using hclass

end Edits

/-! ## 3. Runs

Whether the changes of an update fit depends on what its OWN read found. The calls of a request
therefore carry the request as a label, and the condition on the run is one on the reads. -/

/-- The pool of the service, each call with the request it is made for. -/
abbrev RequestPool := Pool (Effect.label ServiceCall) World Unit

/-- A request that the interceptor hands on and that meets a condition may start at any time. -/
def accepted (rv : RequestValidator) (s : KeyService) (cond : ServiceCall → Prop)
    (new : List (Prog (Effect.label ServiceCall) Unit)) : Prop :=
  ∃ inc call, unaryValidationInterceptor rv inc = .ok call ∧ cond call ∧
    new = (call.threads s).map (Prog.label call)

/-- The world with calls that name their request. -/
def requestSem (s : KeyService) (kms : KMS) : Sem (Effect.label ServiceCall) World :=
  (worldSem s.uuid kms).label ServiceCall

/-- The items of a batch creation pass what is checked of a single creation. -/
def ItemsChecked (rv : RequestValidator) : ServiceCall → Prop
  | .batchCreateKeys req => ∀ item ∈ req.keys, rv.validateCreateKeyItem item = .ok ()
  | _ => True

/-- The changes of a call to one key fit the metadata they are applied to. -/
def CallFits (rv : RequestValidator) (s : KeyService) (id : KeyID) (m : KeyMetadata) :
    ServiceCall → Prop
  | .updateKeyMetadata req => HasRoom req.item m
  | .batchUpdateKeyMetadata req =>
    ∀ item ∈ req.keys, keyIDFromString s.uuid item.keyId = .ok id → ItemFits rv item m
  | _ => True

/-- A read of the latest row finds metadata that the changes of its request fit. -/
def ReadFits (rv : RequestValidator) (s : KeyService) (call : ServiceCall) (op : EffectOp)
    (w : World) : Prop :=
  ∀ id r m, op = .repo (.getKey id) → w.table.latest id = some r → r.metadata = some m →
    CallFits rv s id m call

/-- The world, for calls that find room. -/
def limitedSem (rv : RequestValidator) (s : KeyService) (kms : KMS) :
    Sem (Effect.label ServiceCall) World :=
  (requestSem s kms).restrict fun op => ReadFits rv s op.1 op.2

/-- **A request that is handed on respects the limits**, if its items are checked and where its
reads find room. -/
theorem respects_limits {rv : RequestValidator} {s : KeyService} {call : ServiceCall}
    (hchecked : Checked rv call) (hitems : ItemsChecked rv call) :
    Respects s (WithinLimits rv) (ReadFits rv s call) call := by
  cases call with
  | createKey req =>
    intro identity profile key hkey m hm
    exact (builds_withinLimits hkey hm).mpr hchecked
  | batchCreateKeys req =>
    intro item hitem identity profile key hkey m hm
    exact (builds_withinLimits hkey hm).mpr (hitems item hitem)
  | updateKeyMetadata req =>
    intro id w r m _ hfits hrow hm hwithin description now
    have hroom : HasRoom req.item m := hfits id r m rfl hrow hm
    exact (withinLimits_applyChanges hwithin description now).mpr
      (changesFit_of_checked hchecked hroom)
  | batchUpdateKeyMetadata req =>
    intro item hitem id w r m hid hfits hrow hm hwithin key description now m' hm'
    exact (withinLimits_applyItem hwithin hm').mpr (hfits id r m rfl hrow hm item hitem hid)
  | _ => trivial

/-- All stored metadata is within the limits, in the runs whose reads find room. -/
def limitsDiscipline (rv : RequestValidator) (s : KeyService) (kms : KMS) :
    Discipline (Effect.label ServiceCall) World where
  sem := limitedSem rv s kms
  promise op _ := ∀ rop, op.2 = .repo rop → Brings (WithinLimits rv) rop
  inv w := Stored (WithinLimits rv) w.table
  rely _ _ := True
  refl _ := trivial
  trans _ _ := trivial

/-- For the calls of one request it is the discipline of all stored metadata. -/
theorem limitsDiscipline_fix (rv : RequestValidator) (s : KeyService) (kms : KMS)
    (call : ServiceCall) : (limitsDiscipline rv s kms).fix call =
      metadataDiscipline s kms (WithinLimits rv) (ReadFits rv s call) := rfl

/-- Without the names of the requests it is a run of the service. -/
theorem reachable_of_requests {rv : RequestValidator} {s : KeyService} {kms : KMS}
    {cond : ServiceCall → Prop} {now : Time} {q : RequestPool}
    (h : Pool.Reaches (requestSem s kms) (accepted rv s cond) ⟨.init now, []⟩ q) :
    Reachable s kms q.unlabel := by
  refine ⟨now, Pool.Reaches.unlabel (fun new hnew => ?_) h⟩
  obtain ⟨inc, call, -, -, rfl⟩ := hnew
  refine ⟨call, ?_⟩
  simp [List.map_map, Function.comp_def]

/-- **Stored keys respect the request limits**, in every run of requests that the interceptor hands
on, provided that the items of batch creations pass what is checked of single creations, and that
the changes of an update fit the metadata that it reads. -/
theorem storedKeys_withinLimits {rv : RequestValidator} {s : KeyService} {kms : KMS} {now : Time}
    {q : RequestPool}
    (hrun : Pool.Reaches (limitedSem rv s kms) (accepted rv s (ItemsChecked rv)) ⟨.init now, []⟩
      q) :
    ∀ r ∈ q.state.table.rows, ∃ m, r.metadata = some m ∧ WithinLimits rv m := by
  have hgood : Pool.Good (limitsDiscipline rv s kms) (⟨.init now, []⟩ : RequestPool) :=
    ⟨stored_empty _, fun _ ht => by cases ht⟩
  have hstart : ∀ new, accepted rv s (ItemsChecked rv) new → ∀ w, ∀ t ∈ new,
      t.Meets (limitsDiscipline rv s kms) (fun _ _ => True) w := by
    rintro new ⟨inc, call, hinc, hitems, rfl⟩ w t ht
    obtain ⟨t₀, ht₀, rfl⟩ := List.mem_map.mp ht
    have hrespects := respects_limits (s := s) (interceptor_checked hinc) hitems
    refine Prog.Meets.label ?_
    rw [limitsDiscipline_fix]
    exact metadata_threads (fun _ _ h => ⟨h.tags, h.contexts, h.policies, h.classification⟩)
      hrespects w t₀ ht₀
  have hstored := (Pool.invariant (D := limitsDiscipline rv s kms) hstart hrun hgood).1.1
  have hreach : Reachable s kms q.unlabel :=
    reachable_of_requests (Pool.Reaches.mono (fun _ _ _ _ hop => hop.2) hrun)
  intro r hr
  obtain ⟨m, hm, -⟩ := hreach.chain.metadata r hr
  exact ⟨m, hm, hstored r hr m hm⟩

/-! ## 4. A run within the limits, and one beyond them -/

/-- A validator that goes through a map in the order of its keys, and that takes any text but the
empty one for JSON. -/
def sampleValidator : RequestValidator where
  rangeMap m := (m.keys.sort (· ≤ ·)).filterMap fun k => (m.lookup k).map fun v => (k, v)
  mem_rangeMap m k v := by
    simp only [List.mem_filterMap, Finset.mem_sort, Finmap.mem_keys, Option.map_eq_some_iff,
      Prod.mk.injEq]
    constructor
    · rintro ⟨k', -, v', hv, rfl, rfl⟩
      exact hv
    · intro hv
      exact ⟨k, Finmap.lookup_isSome.mp (by simp [hv]), v, hv, rfl, rfl⟩
  unmarshal policy := if policy = "" then .error (.new "unexpected end of JSON input") else .ok ()

/-- A request of 100 bytes without filters. -/
def sampleIncoming (call : ServiceCall) : IncomingRequest := ⟨call, .ok 100, ∅, none, none⟩

/-- An update that adds a tag. -/
def sampleTagging : ServiceCall :=
  .updateKeyMetadata ⟨⟨sampleText, none, none, none, Finmap.singleton "env" "prod", [], ∅, [], []⟩,
    some sampleContext⟩

/-- A batch creation of one key with a classification that is not allowed. -/
def sampleBatchCreate : ServiceCall :=
  .batchCreateKeys ⟨[{ sampleItem with dataClassification := "top-secret" }], false,
    some sampleContext⟩

theorem tagsOk_empty : TagsOk ∅ := by
  refine ⟨by decide, fun k v h => ?_⟩
  simp at h

theorem contextsOk_nil : ContextsOk [] := ⟨by decide, by simp, by simp⟩

theorem policiesOk_empty (rv : RequestValidator) : PoliciesOk rv ∅ := by
  refine ⟨by decide, fun k v h => ?_⟩
  simp at h

theorem sampleCreate_accepted :
    unaryValidationInterceptor sampleValidator (sampleIncoming sampleCreate) =
      .ok sampleCreate := by
  have hitem : sampleValidator.validateCreateKeyItem sampleItem = .ok () :=
    validateCreateKeyItem_ok.mpr
      ⟨tagsOk_empty, ⟨by decide, by decide, by decide⟩, policiesOk_empty _, .inl rfl⟩
  exact map_eq_ok.mpr ⟨(), hitem, rfl⟩

theorem sampleTagging_accepted :
    unaryValidationInterceptor sampleValidator (sampleIncoming sampleTagging) =
      .ok sampleTagging := by
  have htag : TagsOk (Finmap.singleton "env" "prod") := by
    refine ⟨by decide, fun k v h => ?_⟩
    have hk : k ∈ (Finmap.singleton "env" "prod" : StringMap) :=
      Finmap.lookup_isSome.mp (by simp [h])
    obtain rfl := (Finmap.mem_singleton _ _ _).mp hk
    rw [Finmap.lookup_singleton_eq] at h
    cases h
    exact ⟨by decide, by decide, by decide⟩
  exact map_eq_ok.mpr ⟨(), validateUpdateItem_ok.mpr
    ⟨htag, contextsOk_nil, contextsOk_nil, policiesOk_empty _, .inl rfl⟩, rfl⟩

/-- The moves of a run: each request starts and is carried out before the next. -/
def inTurn (calls : List ServiceCall) : List (Pool.Move (Effect.label ServiceCall) Unit) :=
  calls.zipIdx.flatMap fun (call, i) =>
    [.join ((call.threads sampleService).map (Prog.label call)), .finish i]

theorem accepted_of_inTurn {cond : ServiceCall → Prop} {calls : List ServiceCall}
    (h : ∀ call ∈ calls, cond call ∧
      unaryValidationInterceptor sampleValidator (sampleIncoming call) = .ok call)
    {new : List (Prog (Effect.label ServiceCall) Unit)} (hnew : .join new ∈ inTurn calls) :
    accepted sampleValidator sampleService cond new := by
  obtain ⟨⟨call, i⟩, hcall, hmove⟩ := List.mem_flatMap.mp hnew
  have hmem : call ∈ calls := (List.mem_zipIdx hcall).2.2 ▸ List.getElem_mem _
  simp only [List.mem_cons, Pool.Move.join.injEq, reduceCtorEq, List.not_mem_nil, or_false]
    at hmove
  exact ⟨sampleIncoming call, call, (h call hmem).2, (h call hmem).1, hmove⟩

/-- Does the read of a single update find room? -/
def roomTest : ServiceCall × EffectOp → World → Bool
  | (.updateKeyMetadata req, .repo (.getKey id)), w =>
    match (w.table.latest id).bind Row.metadata with
    | some m => decide (((m.tags.keys ∪ req.item.tagsToAdd.keys) \
        req.item.tagsToRemove.toFinset).card ≤ maxTagCount)
    | none => true
  | (.batchUpdateKeyMetadata _, .repo (.getKey _)), _ => false
  | _, _ => true

theorem readFits_of_roomTest {rv : RequestValidator} {s : KeyService} (op : ServiceCall × EffectOp)
    (w : World) (h : roomTest op w = true) : ReadFits rv s op.1 op.2 w := by
  obtain ⟨call, op⟩ := op
  rintro id r m rfl hrow hm
  cases call with
  | updateKeyMetadata req => simpa [roomTest, hrow, hm, CallFits, HasRoom] using h
  | batchUpdateKeyMetadata req => cases h
  | _ => trivial

/-- A key is created and then tagged. -/
def taggedPool : RequestPool :=
  Pool.after ((sampleStep.label ServiceCall).guard roomTest) (inTurn [sampleCreate, sampleTagging])
    ⟨.init 0, []⟩

/-- Its metadata, with the tag, is within the limits. -/
theorem storedKeys_withinLimits_tagged : ∃ r ∈ taggedPool.state.table.rows, ∃ m,
    r.metadata = some m ∧ m.tags.lookup "env" = some "prod" ∧
      WithinLimits sampleValidator m := by
  have hsound : ((sampleStep.label ServiceCall).guard roomTest).Sound
      (limitedSem sampleValidator sampleService sampleKMS) :=
    Handler.Sound.guard sampleStep_sound.label readFits_of_roomTest
  have hrun : Pool.Reaches (limitedSem sampleValidator sampleService sampleKMS)
      (accepted sampleValidator sampleService (ItemsChecked sampleValidator)) ⟨.init 0, []⟩
      taggedPool := by
    refine Pool.after_reaches hsound (fun new hnew => accepted_of_inTurn ?_ hnew) _
    simp only [List.forall_mem_cons, List.not_mem_nil, false_implies, implies_true, and_true]
    exact ⟨⟨trivial, sampleCreate_accepted⟩, trivial, sampleTagging_accepted⟩
  have hrow : ∃ r ∈ taggedPool.state.table.rows,
      r.metadata.bind (fun m => m.tags.lookup "env") = some "prod" := by decide +kernel
  obtain ⟨r, hr, htag⟩ := hrow
  obtain ⟨m, hm, hwithin⟩ := storedKeys_withinLimits hrun r hr
  rw [hm] at htag
  exact ⟨r, hr, m, hm, htag, hwithin⟩

/-- A batch creation. -/
def batchPool : RequestPool :=
  Pool.after (sampleStep.label ServiceCall) (inTurn [sampleBatchCreate]) ⟨.init 0, []⟩

/-- The interceptor hands on a batch creation, and the key that is stored has a classification that
is not allowed. -/
theorem batch_beyond_limits :
    Pool.Reaches (requestSem sampleService sampleKMS)
      (accepted sampleValidator sampleService fun _ => True) ⟨.init 0, []⟩ batchPool ∧
    ∃ r ∈ batchPool.state.table.rows, ∃ m, r.metadata = some m ∧
      m.dataClassification = "top-secret" ∧ ¬ WithinLimits sampleValidator m := by
  constructor
  · refine Pool.after_reaches sampleStep_sound.label
      (fun new hnew => accepted_of_inTurn ?_ hnew) _
    simp only [List.forall_mem_cons, List.not_mem_nil, false_implies, implies_true, and_true]
    exact ⟨trivial, rfl⟩
  · have hrow : ∃ r ∈ batchPool.state.table.rows,
        r.metadata.map (fun m => m.dataClassification) = some "top-secret" := by decide +kernel
    obtain ⟨r, hr, hclass⟩ := hrow
    obtain ⟨m, hm, hclass⟩ := Option.map_eq_some_iff.mp hclass
    refine ⟨r, hr, m, hm, hclass, fun h => ?_⟩
    have hallowed := h.classification
    rw [hclass] at hallowed
    revert hallowed
    unfold ClassificationOk
    decide

end Polykey
