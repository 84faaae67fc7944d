/-
# Batches that may not go on

Every batch request has a flag `continue_on_error`.  Four of the six batch methods look at it where
an item is not valid, or refuse such an item anyway; `BatchCreateKeys` and `BatchRotateKeys` hand
it to `ProcessBatch`, which does not read it.  So with the flag off an invalid item fails the whole
request and leaves the rows as they were, unless it is one of those two and comes past the
authorizer and the check of the identity (`invalidItem_refused_iff`).
-/
import Polykey.Grpc.ErrorCodes

namespace Polykey

open Lib

/-! ## 1. Actions that do not write

A request is refused when every run of it fails and leaves the table. `Preserves` and `Refuses`
are closed under the ways in which the methods are put together. -/

/-- The action comes to an end, leaves the table, and `Q` holds of what it returns. -/
structure Preserves (uuid : UUIDPkg) (kms : KMS) {α : Type} (a : Svc α) (Q : α → Prop) : Prop where
  returns : Act.Returns (worldSem uuid kms) a
  keeps : ∀ w r w', Act.Runs (worldSem uuid kms) a w r w' →
    w'.table = w.table ∧ ∀ b, r = .ok b → Q b

/-- The action fails, and leaves the table. -/
def Refuses (uuid : UUIDPkg) (kms : KMS) {α : Type} (a : Svc α) : Prop :=
  Preserves uuid kms a fun _ => False

namespace Preserves

variable {uuid : UUIDPkg} {kms : KMS} {α β : Type} {Q : α → Prop} {Q' : β → Prop}

theorem pure {b : α} (h : Q b) : Preserves uuid kms (Pure.pure b) Q := by
  refine ⟨.pure b, ?_⟩
  rintro w r w' ⟨rfl, rfl⟩
  refine ⟨rfl, fun b' hb' => ?_⟩
  cases hb'
  exact h

theorem throw (e : Err) : Preserves uuid kms (Act.throw e : Svc α) Q := by
  refine ⟨.throw e, ?_⟩
  rintro w r w' ⟨rfl, rfl⟩
  exact ⟨rfl, fun b hb => by cases hb⟩

theorem ofExcept {x : Except Err α} (h : ∀ b, x = .ok b → Q b) :
    Preserves uuid kms (Act.ofExcept x : Svc α) Q := by
  refine ⟨.ofExcept x, ?_⟩
  rintro w r w' ⟨rfl, rfl⟩
  exact ⟨rfl, h⟩

theorem bind {a : Svc α} {f : α → Svc β} (ha : Preserves uuid kms a Q)
    (hf : ∀ b, Q b → Preserves uuid kms (f b) Q') : Preserves uuid kms (a >>= f) Q' := by
  constructor
  · intro w
    obtain ⟨r, w₁, hrun⟩ := ha.returns w
    cases r with
    | error e => exact ⟨.error e, w₁, Act.runs_bind.mpr (.inr ⟨e, rfl, hrun⟩)⟩
    | ok b =>
      obtain ⟨r, w', hrest⟩ := (hf b ((ha.keeps w _ w₁ hrun).2 b rfl)).returns w₁
      exact ⟨r, w', Act.runs_bind.mpr (.inl ⟨b, w₁, hrun, hrest⟩)⟩
  · intro w r w' hrun
    rcases Act.runs_bind.mp hrun with ⟨b, w₁, hb, hrest⟩ | ⟨e, rfl, he⟩
    · obtain ⟨htable, hQ⟩ := ha.keeps w _ w₁ hb
      obtain ⟨htable', hQ'⟩ := (hf b (hQ b rfl)).keeps w₁ r w' hrest
      exact ⟨htable'.trans htable, hQ'⟩
    · exact ⟨(ha.keeps w _ w' he).1, fun b hb => by cases hb⟩

theorem attempt {a : Svc α} (ha : Preserves uuid kms a Q) :
    Preserves uuid kms (Act.attempt a) fun r => ∀ b, r = .ok b → Q b := by
  refine ⟨ha.returns.attempt, fun w r w' hrun => ?_⟩
  obtain ⟨x, w₁, hx, rfl, rfl⟩ := Prog.runs_bind.mp hrun
  obtain ⟨htable, hQ⟩ := ha.keeps w x w' hx
  refine ⟨htable, fun b hb => ?_⟩
  cases hb
  exact hQ

theorem ite {c : Prop} [Decidable c] {a a' : Svc α} (h : c → Preserves uuid kms a Q)
    (h' : ¬ c → Preserves uuid kms a' Q) : Preserves uuid kms (if c then a else a') Q := by
  split
  · exact h ‹_›
  · exact h' ‹_›

theorem timeNow :
    Preserves uuid kms (Act.call (I := Effect) .timeNow : Svc Time) fun _ => True := by
  refine ⟨.call fun w => ⟨w.clock, w, w.clock, le_rfl, rfl, rfl⟩, fun w r w' hrun => ?_⟩
  obtain ⟨x, hstep, rfl⟩ := Act.runs_tryCall.mp hrun
  exact ⟨worldSem_table hstep rfl, fun _ _ => trivial⟩

/-- A read of one row. -/
theorem getKey (id : KeyID) : Preserves uuid kms (repo (.getKey id)) fun _ => True := by
  refine ⟨.tryCall (fun w => ⟨_, _, w.clock, le_rfl, _, .inl rfl, rfl⟩) _, fun w r w' hrun => ?_⟩
  obtain ⟨x, ⟨now, -, t', hans, rfl⟩, rfl⟩ := Act.runs_tryCall.mp hrun
  refine ⟨?_, fun _ _ => trivial⟩
  rcases hans with hexec | ⟨-, htable⟩
  · exact (Prod.mk.inj hexec).2.symm
  · exact htable

/-- The authorizer: whoever it lets pass has passed the gates. -/
theorem authorize (cfg : AuthorizationConfig) (ctx : CallContext)
    (reqContext : Option RequesterContext) (operation : String) (k : KeyID) :
    Preserves uuid kms (Polykey.authorize uuid cfg ctx reqContext operation k) fun d =>
      d.1 = true → ∃ user, Admits cfg ctx reqContext operation user := by
  have hsettles := authorize_settles (worldSem_returns uuid kms) uuid cfg ctx reqContext operation k
  refine ⟨hsettles.returns, fun w r w' hrun => ?_⟩
  obtain ⟨d, rfl⟩ := hsettles.succeeds w r w' hrun
  obtain ⟨hcases, htable, -⟩ := runs_authorize hrun
  refine ⟨htable, fun b hb hpass => ?_⟩
  cases hb
  rcases hcases with ⟨hfalse, -⟩ | ⟨user, hadmits, -⟩
  · rw [hfalse] at hpass
    cases hpass
  · exact ⟨user, hadmits⟩

end Preserves

/-- A handler refuses what the service refuses, where the gates let the call pass. -/
theorem Refuses.execWithoutKey {p : PolykeyService} {kms : KMS} {ctx : CallContext}
    {operation : String} {reqContext : Option RequesterContext} {α : Type} {fn : Svc α}
    (h : ∀ user, Admits p.authorization ctx reqContext operation user →
      Refuses p.keyService.uuid kms fn) :
    Refuses p.keyService.uuid kms (discard (p.execWithoutKey ctx operation reqContext fn)) := by
  have hhandler : Refuses p.keyService.uuid kms (p.execWithoutKey ctx operation reqContext fn) := by
    refine Preserves.bind (.authorize p.authorization ctx reqContext operation .nil) fun d hd => ?_
    refine .ite (fun hpass => ?_) fun _ => .throw _
    obtain ⟨user, hadmits⟩ := hd hpass
    exact h user hadmits
  exact Preserves.bind hhandler fun _ hfalse => hfalse.elim

/-! ## 2. Invalid items -/

/-- Some item fails its validation: its id does not parse, its key type is not supported, or its
description is too long. -/
def ServiceCall.InvalidItem (uuid : UUIDPkg) : ServiceCall → Prop
  | .batchCreateKeys req => ∃ item ∈ req.keys, ∃ e, getCryptoDetails item.keyType = .error e ∨
    newDescription item.description = .error e
  | .batchGetKeys req | .batchGetKeyMetadata req => ∃ item ∈ req.keys, ∃ e,
    keyIDFromString uuid item.keyId = .error e
  | .batchRotateKeys req => ∃ item ∈ req.keys, ∃ e, keyIDFromString uuid item.keyId = .error e
  | .batchRevokeKeys req => ∃ keyId ∈ req.keys, ∃ e, keyIDFromString uuid keyId = .error e
  | .batchUpdateKeyMetadata req => ∃ item ∈ req.keys, ∃ e,
    keyIDFromString uuid item.keyId = .error e ∨ KeyService.checkDescription item = .error e
  | _ => False

/-- The flag of a batch request. -/
def ServiceCall.continueOnError : ServiceCall → Option Bool
  | .batchCreateKeys req => some req.continueOnError
  | .batchGetKeys req | .batchGetKeyMetadata req => some req.continueOnError
  | .batchRotateKeys req => some req.continueOnError
  | .batchRevokeKeys req => some req.continueOnError
  | .batchUpdateKeyMetadata req => some req.continueOnError
  | _ => none

/-- The items reach `ProcessBatch`, whose outcomes are reported one by one. -/
def ServiceCall.Processed (p : PolykeyService) (ctx : CallContext) : ServiceCall → Prop
  | .batchCreateKeys req => hasIdentity req.requesterContext = true ∧
    ∃ user, Admits p.authorization ctx req.requesterContext authKeysCreate user
  | .batchRotateKeys req => hasIdentity req.requesterContext = true ∧
    ∃ user, Admits p.authorization ctx req.requesterContext authKeysRotate user
  | _ => False

/-! ### The methods that refuse them -/

section Refused

variable {s : KeyService} {kms : KMS}

theorem refuses_batchGetKeys {req : BatchGetRequest} {item : KeyRequestItem} {e : Err}
    (hitem : item ∈ req.keys) (hid : keyIDFromString s.uuid item.keyId = .error e) :
    Refuses s.uuid kms (s.batchGetKeys req) := by
  obtain ⟨keyId, e', -, he'⟩ := parseAll_error hitem hid
  unfold KeyService.batchGetKeys
  refine .ite (fun _ => .throw _) fun _ => ?_
  rw [he']
  exact .bind (Q := fun _ => False) (.ofExcept fun b hb => by cases hb) fun _ hfalse => hfalse.elim

theorem refuses_batchGetKeyMetadata {req : BatchGetRequest} {item : KeyRequestItem} {e : Err}
    (hstops : req.continueOnError = false) (hitem : item ∈ req.keys)
    (hid : keyIDFromString s.uuid item.keyId = .error e) :
    Refuses s.uuid kms (s.batchGetKeyMetadata req) := by
  obtain ⟨keyId, e', -, he'⟩ := firstInvalid_some (List.mem_map_of_mem hitem) hid
  unfold KeyService.batchGetKeyMetadata
  refine .ite (fun _ => .throw _) fun _ => ?_
  simp only [he', hstops]
  exact .throw _

theorem refuses_batchRevokeKeys {req : BatchRevokeKeysRequest} {keyId : String} {e : Err}
    (hstops : req.continueOnError = false) (hitem : keyId ∈ req.keys)
    (hid : keyIDFromString s.uuid keyId = .error e) :
    Refuses s.uuid kms (s.batchRevokeKeys req) := by
  obtain ⟨keyId', e', -, he'⟩ := firstInvalid_some hitem hid
  unfold KeyService.batchRevokeKeys
  refine .ite (fun _ => .throw _) fun _ => ?_
  simp only [he', hstops]
  exact .throw _

/-- One turn of the loop of `BatchUpdateKeyMetadata`; an item that is not valid does not succeed. -/
theorem preserves_updateItem (item : UpdateKeyMetadataItem) :
    Preserves s.uuid kms (s.updateItem item) fun r => ∀ key, r = .ok key →
      (∃ id, keyIDFromString s.uuid item.keyId = .ok id) ∧
        ∃ description, KeyService.checkDescription item = .ok description := by
  unfold KeyService.updateItem
  split
  · exact .pure fun key hkey => by cases hkey
  rename_i id hid
  refine .bind (Preserves.getKey id).attempt fun current _ => ?_
  split
  · exact .pure fun key hkey => by cases hkey
  split
  · exact .pure fun key hkey => by cases hkey
  rename_i description hdescription
  split
  · exact .throw _
  · exact .bind .timeNow fun now _ => .pure fun _ _ => ⟨⟨id, hid⟩, description, hdescription⟩

theorem refuses_updateLoop {items : List UpdateKeyMetadataItem} {item : UpdateKeyMetadataItem}
    {e : Err} (hitem : item ∈ items) (hinvalid : keyIDFromString s.uuid item.keyId = .error e ∨
      KeyService.checkDescription item = .error e) :
    Refuses s.uuid kms (s.updateLoop false items) := by
  induction items with
  | nil => cases hitem
  | cons a items ih =>
    unfold KeyService.updateLoop
    refine .bind (preserves_updateItem a) fun r hr => ?_
    cases r with
    | error failure => exact .throw _
    | ok key =>
      rcases List.mem_cons.mp hitem with rfl | hrest
      · obtain ⟨⟨id, hid⟩, description, hdescription⟩ := hr key rfl
        rcases hinvalid with herr | herr
        · rw [hid] at herr
          cases herr
        · rw [hdescription] at herr
          cases herr
      · exact .bind (ih hrest) fun _ hfalse => hfalse.elim

theorem refuses_batchUpdateKeyMetadata {req : BatchUpdateKeyMetadataRequest}
    {item : UpdateKeyMetadataItem} {e : Err} (hstops : req.continueOnError = false)
    (hitem : item ∈ req.keys) (hinvalid : keyIDFromString s.uuid item.keyId = .error e ∨
      KeyService.checkDescription item = .error e) :
    Refuses s.uuid kms (s.batchUpdateKeyMetadata req) := by
  unfold KeyService.batchUpdateKeyMetadata
  refine .ite (fun _ => .throw _) fun _ => ?_
  rw [hstops]
  exact .bind (refuses_updateLoop hitem hinvalid) fun _ hfalse => hfalse.elim

theorem refuses_unidentified {α : Type} {rc : Option RequesterContext} {e : Err} {a : Svc α}
    (h : hasIdentity rc ≠ true) :
    Refuses s.uuid kms (if !hasIdentity rc then Act.throw e else a) := by
  refine .ite (fun _ => .throw _) fun hid => ?_
  simp [h] at hid

end Refused

/-! ### The methods that do not

Here a run has to be shown in which the request is answered. It is one in which every item fails,
which is possible whatever is stored: random bytes may be missing, and a row may not be read. -/

section Processed

variable {s : KeyService} {kms : KMS}

/-- A batch whose items can all fail comes to an end. -/
theorem processBatch_failing {α β : Type} {validate : α → Except Err Unit} {process : α → Svc β}
    (h : ∀ a w, ∃ e w', Act.Runs (worldSem s.uuid kms) (process a) w (.error e) w') (as : List α)
    (w : World) : ∃ rs w', Act.Runs (worldSem s.uuid kms) (processBatch validate process as) w
      (.ok rs) w' ∧ List.Forall₂ (fun _ r => ∃ e, r = .error e) as rs := by
  refine processBatch_runs (fun a _ w => ?_) w
  unfold processItem
  split
  · exact ⟨_, w, Act.runs_pure.mpr ⟨rfl, rfl⟩, _, rfl⟩
  · obtain ⟨e, w', hrun⟩ := h a w
    exact ⟨.error e, w', Act.runs_attempt.mpr hrun, e, rfl⟩

/-- A step that fails ends its sequence. -/
theorem exists_fails_bind {α β : Type} {a : Svc α} {f : α → Svc β} {w : World}
    (h : ∃ e w', Act.Runs (worldSem s.uuid kms) a w (.error e) w') :
    ∃ e w', Act.Runs (worldSem s.uuid kms) (a >>= f) w (.error e) w' := by
  obtain ⟨e, w', hrun⟩ := h
  exact ⟨e, w', Act.runs_bind.mpr (.inr ⟨e, rfl, hrun⟩)⟩

/-- A value that may be missing, before a step that can fail. -/
theorem exists_fails_ofExcept {α β : Type} {x : Except Err α} {f : α → Svc β} {w : World}
    (h : ∀ a, ∃ e w', Act.Runs (worldSem s.uuid kms) (f a) w (.error e) w') :
    ∃ e w', Act.Runs (worldSem s.uuid kms) (Act.ofExcept x >>= f) w (.error e) w' := by
  cases x with
  | error e => exact ⟨e, w, rfl, rfl⟩
  | ok a => exact h a

theorem exists_fails_mapError {α : Type} {a : Svc α} {f : Err → Err} {w : World}
    (h : ∃ e w', Act.Runs (worldSem s.uuid kms) a w (.error e) w') :
    ∃ e w', Act.Runs (worldSem s.uuid kms) (Act.mapError f a) w (.error e) w' := by
  obtain ⟨e, w', hrun⟩ := h
  exact ⟨f e, w', Act.runs_mapError.mpr ⟨_, hrun, rfl⟩⟩

/-- Random bytes may be missing. -/
theorem createKeyObject_fails (item : CreateKeyItem) (identity : String) (profile : StorageProfile)
    (w : World) : ∃ e w', Act.Runs (worldSem s.uuid kms) (s.createKeyObject item identity profile) w
      (.error e) w' := by
  refine exists_fails_ofExcept fun _ => exists_fails_ofExcept fun size => exists_fails_bind ?_
  have hread : ∀ bytes : Bytes, (Except.error Err.nilPointer : Except Err Bytes) = .ok bytes →
      bytes.length = size := fun _ hbytes => by cases hbytes
  exact exists_fails_mapError
    ⟨_, w, Act.runs_tryCall.mpr ⟨_, ⟨w.clock, le_rfl, hread, rfl⟩, rfl⟩⟩

/-- The row may not be read. -/
theorem rotateItem_fails (item : RotateKeyItem) (w : World) :
    ∃ e w', Act.Runs (worldSem s.uuid kms) (s.rotateItem item) w (.error e) w' := by
  refine exists_fails_ofExcept fun id => exists_fails_bind (exists_fails_bind ?_)
  exact exists_fails_mapError ⟨.nilPointer, w, Act.runs_tryCall.mpr
    ⟨_, ⟨w.clock, le_rfl, w.table, .inr ⟨⟨_, rfl⟩, rfl⟩, rfl⟩, rfl⟩⟩

theorem createdKeys_errors {α : Type} {as : List α} {items : List (Except Err Key)}
    (h : List.Forall₂ (fun _ r => ∃ e, r = .error e) as items) :
    KeyService.createdKeys items = [] := by
  induction h with
  | nil => rfl
  | cons hr _ ih =>
    obtain ⟨e, rfl⟩ := hr
    exact ih

theorem batchCreateKeys_answers {req : BatchCreateKeysRequest}
    (hidentity : hasIdentity req.requesterContext = true) (w : World) :
    ∃ resp w', Act.Runs (worldSem s.uuid kms) (s.batchCreateKeys req) w (.ok resp) w' := by
  obtain ⟨items, w₁, hitems, herrors⟩ : ∃ items w₁, Act.Runs (worldSem s.uuid kms)
      (processBatch KeyService.validateCreate (fun item => s.createKeyObject item
        (identityOf req.requesterContext) (KeyService.profileOf req.requesterContext)) req.keys) w
      (.ok items) w₁ ∧ _ :=
    processBatch_failing (createKeyObject_fails · _ _) req.keys w
  have hstored : Act.Runs (worldSem s.uuid kms) (Act.mapError
      (Err.wrap "failed to create keys in batch: ")
      (repo (.createBatchKeys (KeyService.createdKeys items)))) w₁ (.ok ()) w₁ := by
    rw [createdKeys_errors herrors]
    exact Act.runs_mapError_ok.mpr (runs_repo_ok.mpr ⟨w₁.clock, w₁.table, le_rfl, rfl, rfl⟩)
  simp only [KeyService.batchCreateKeys, hidentity, Bool.not_true, Bool.false_eq_true, if_false]
  exact ⟨_, w₁, Act.runs_bind_ok.mpr ⟨items, w₁, hitems,
    Act.runs_bind_ok.mpr ⟨(), w₁, hstored, rfl, rfl⟩⟩⟩

theorem batchRotateKeys_answers {req : BatchRotateKeysRequest}
    (hidentity : hasIdentity req.requesterContext = true) (w : World) :
    ∃ resp w', Act.Runs (worldSem s.uuid kms) (s.batchRotateKeys req) w (.ok resp) w' := by
  obtain ⟨items, w₁, hitems, -⟩ : ∃ items w₁, Act.Runs (worldSem s.uuid kms)
      (processBatch s.validateRotate s.rotateItem req.keys) w (.ok items) w₁ ∧ _ :=
    processBatch_failing rotateItem_fails req.keys w
  simp only [KeyService.batchRotateKeys, hidentity, Bool.not_true, Bool.false_eq_true, if_false]
  exact ⟨_, w₁, Act.runs_bind_ok.mpr ⟨items, w₁, hitems,
    Act.runs_bind_ok.mpr ⟨_, w₁, timeNow_runs s.uuid kms w₁, rfl, rfl⟩⟩⟩

/-- A call that is admitted and answered is not refused. -/
theorem not_refuses_execWithoutKey {p : PolykeyService} {ctx : CallContext} {operation : String}
    {reqContext : Option RequesterContext} {user : AuthenticatedUser} {α : Type} {fn : Svc α}
    (hadmits : Admits p.authorization ctx reqContext operation user)
    (hanswers : ∀ w, ∃ a w', Act.Runs (worldSem p.keyService.uuid kms) fn w (.ok a) w') :
    ¬ Refuses p.keyService.uuid kms (discard (p.execWithoutKey ctx operation reqContext fn)) := by
  intro hrefuses
  obtain ⟨reason, cache, audit, hauth⟩ := authorize_zero p.keyService.uuid kms hadmits
    (positive_init 0)
  obtain ⟨a, w', hrun⟩ := hanswers { World.init 0 with policyCache := cache, audit := audit }
  have hhandled : Act.Runs (worldSem p.keyService.uuid kms)
      (p.execWithoutKey ctx operation reqContext fn) (World.init 0) (.ok a) w' :=
    Act.runs_bind_ok.mpr ⟨_, _, hauth, hrun⟩
  have hdiscarded := runs_discard.mpr ⟨_, hhandled, rfl⟩
  exact (hrefuses.keeps _ _ _ hdiscarded).2 () rfl

end Processed

/-! ## 3. The flag -/

/-- **When an invalid item fails its batch.** With `continue_on_error` off, the request comes back
with an error from every state, and the rows are as before, unless its items reach `ProcessBatch`.
-/
theorem invalidItem_refused_iff (p : PolykeyService) (kms : KMS) (ctx : CallContext)
    {call : ServiceCall} (hinvalid : call.InvalidItem p.keyService.uuid)
    (hstops : call.continueOnError = some false) :
    Refuses p.keyService.uuid kms (p.handle ctx call) ↔ ¬ call.Processed p ctx := by
  cases call with
  | batchCreateKeys req =>
    constructor
    · rintro hrefuses ⟨hidentity, user, hadmits⟩
      exact not_refuses_execWithoutKey hadmits (batchCreateKeys_answers hidentity) hrefuses
    · intro hnot
      refine Refuses.execWithoutKey fun user hadmits => refuses_unidentified fun hidentity => ?_
      exact hnot ⟨hidentity, user, hadmits⟩
  | batchRotateKeys req =>
    constructor
    · rintro hrefuses ⟨hidentity, user, hadmits⟩
      exact not_refuses_execWithoutKey hadmits (batchRotateKeys_answers hidentity) hrefuses
    · intro hnot
      refine Refuses.execWithoutKey fun user hadmits => refuses_unidentified fun hidentity => ?_
      exact hnot ⟨hidentity, user, hadmits⟩
  | batchGetKeys req =>
    obtain ⟨item, hitem, e, hid⟩ := hinvalid
    exact iff_of_true (Refuses.execWithoutKey fun _ _ => refuses_batchGetKeys hitem hid) not_false
  | batchGetKeyMetadata req =>
    obtain ⟨item, hitem, e, hid⟩ := hinvalid
    exact iff_of_true (Refuses.execWithoutKey fun _ _ =>
      refuses_batchGetKeyMetadata (Option.some.inj hstops) hitem hid) not_false
  | batchRevokeKeys req =>
    obtain ⟨keyId, hitem, e, hid⟩ := hinvalid
    exact iff_of_true (Refuses.execWithoutKey fun _ _ =>
      refuses_batchRevokeKeys (Option.some.inj hstops) hitem hid) not_false
  | batchUpdateKeyMetadata req =>
    obtain ⟨item, hitem, e, hid⟩ := hinvalid
    exact iff_of_true (Refuses.execWithoutKey fun _ _ =>
      refuses_batchUpdateKeyMetadata (Option.some.inj hstops) hitem hid) not_false
  | _ => cases hinvalid

/-! ### One valid item and one that is not -/

theorem notAKey_invalid : ∃ e, keyIDFromString googleUUID "not-a-key" = .error e := by
  have hnot : (keyIDFromString googleUUID "not-a-key").toOption = none := by decide
  cases hid : keyIDFromString googleUUID "not-a-key" with
  | error e => exact ⟨e, rfl⟩
  | ok id =>
    rw [hid] at hnot
    cases hnot

/-- A revocation of Alice's key and of something that is no id. -/
def rootRevokesBoth : ServiceCall :=
  .batchRevokeKeys ⟨[sampleText, "not-a-key"], false, ownContext root⟩

/-- It is refused. -/
theorem invalidItem_refused_iff_revoke :
    Refuses googleUUID sampleKMS (staffService.handle rootContext rootRevokesBoth) := by
  obtain ⟨e, he⟩ := notAKey_invalid
  have hinvalid : rootRevokesBoth.InvalidItem staffService.keyService.uuid :=
    ⟨"not-a-key", by simp, e, he⟩
  exact (invalidItem_refused_iff staffService sampleKMS rootContext hinvalid rfl).mpr not_false

/-- A rotation of the same two. -/
def rootRotatesBoth : BatchRotateKeysRequest :=
  ⟨[⟨sampleText, 0⟩, ⟨"not-a-key", 0⟩], false, ownContext root⟩

/-- **It goes on.**  The request is answered, and Alice's key has a second version. -/
theorem invalidItem_tolerated :
    (ServiceCall.batchRotateKeys rootRotatesBoth).InvalidItem googleUUID ∧
    (ServiceCall.batchRotateKeys rootRotatesBoth).continueOnError = some false ∧
    (aliceKey.table.versionsOf sampleID).length = 1 ∧
    ∃ resp w', Act.Runs (worldSem googleUUID sampleKMS)
      (staffService.batchRotateKeys rootContext rootRotatesBoth) aliceKey (.ok resp) w' ∧
      resp.successfulCount = 1 ∧ resp.failedCount = 1 ∧
      (w'.table.versionsOf sampleID).length = 2 := by
  obtain ⟨e, he⟩ := notAKey_invalid
  refine ⟨⟨⟨"not-a-key", 0⟩, by simp [rootRotatesBoth], e, he⟩, rfl, by decide +kernel, ?_⟩
  obtain ⟨r, w', hrun, hcheck⟩ := Prog.exists_runs sampleStep_sound
    (staffService.batchRotateKeys rootContext rootRotatesBoth) aliceKey
    (fun out => (out.1.toOption.any fun resp => resp.successfulCount = 1 ∧ resp.failedCount = 1) ∧
      (out.2.table.versionsOf sampleID).length = 2) (by decide +kernel)
  obtain ⟨hresp, hrows⟩ := of_decide_eq_true hcheck
  cases r with
  | error e => cases hresp
  | ok resp =>
    obtain ⟨hok, hfailed⟩ := of_decide_eq_true hresp
    exact ⟨resp, w', hrun, hok, hfailed, hrows⟩

end Polykey
