/-
# Metadata updates that fail

The service over the caching repository, with its pointers.  `UpdateKeyMetadata` gets a pointer to
the key in the cache, edits the metadata there, and only then writes it to the database.  When the
write fails the edit stays where it is, and every read that finds the entry sees it.  The batch
edits one object after another before its single write, so an item that is refused leaves the edits
of the items before it.

A call that fails leaves reads as they were only if it cannot get as far as an edit: the id has to
be unreadable, or without a key, or the description refused (`Editable`); of a batch, those of its
first item.  `failedUpdate_leavesReads` says that this is exact.

The two methods are written again here, because what matters is when they assign to an object.  Over
a repository that returns a new object every time they are the methods of `KeyService`
(`updateKeyMetadata_newObjects`, `batchUpdateKeyMetadata_newObjects`).  Reads are the service's and
the authorizer's own actions, run over the store.
-/
import Mathlib
import Polykey.Auth.Authorizer
import Polykey.Persistence.ObjectStore

namespace Polykey

open Lib CachedRepository

/-! ## 1. Reading over the store -/

/-- The world with its keys in a caching repository.  The table of `base` is not used. -/
structure ObjectWorld where
  store : ObjectStore
  base : World

/-- The calls of a reader: the database works, and a call of the repository goes through the
cache. -/
def readSem (uuid : UUIDPkg) (kms : KMS) : Sem Effect ObjectWorld
  | .repo op, w, r, w' => ∃ now later, w.base.clock ≤ now ∧ now ≤ later ∧
      w.store.call uuid now later op = (r, w'.store) ∧ w'.base = { w.base with clock := later }
  | op, w, r, w' => w'.store = w.store ∧ worldSem uuid kms op w.base r w'.base

inductive ReadCall
  | getKey (req : GetKeyRequest)
  | getKeyMetadata (req : GetKeyMetadataRequest)
  | authorize (ctx : CallContext) (reqContext : Option RequesterContext) (operation : String)
      (keyID : KeyID)

inductive ReadAnswer
  | key (r : Except Err GetKeyResponse)
  | metadata (r : Except Err GetKeyMetadataResponse)
  | decision (r : Except Err (Bool × String))

/-- The read, as the service and the authorizer make it. -/
def ReadCall.prog (s : KeyService) (cfg : AuthorizationConfig) : ReadCall → Prog Effect ReadAnswer
  | getKey req => Prog.bind (s.getKey req) fun r => .ret (.key r)
  | getKeyMetadata req => Prog.bind (s.getKeyMetadata req) fun r => .ret (.metadata r)
  | authorize ctx reqContext operation keyID =>
    Prog.bind (Polykey.authorize s.uuid cfg ctx reqContext operation keyID) fun r =>
      .ret (.decision r)

/-- Some reads, one after another. -/
def readAll (s : KeyService) (cfg : AuthorizationConfig) :
    List ReadCall → Prog Effect (List ReadAnswer)
  | [] => .ret []
  | c :: cs => (c.prog s cfg).bind fun a => (readAll s cfg cs).bind fun as => .ret (a :: as)

/-- **Reads are as they were.**  Whatever is read after the call, in any order, any number of times
and at any time, the answers are those that would be given had the call not been made. -/
def LeavesReads (s : KeyService) (kms : KMS) (cfg : AuthorizationConfig) (w w' : ObjectWorld) :
    Prop :=
  ∀ calls answers,
    (∃ w₁, (readAll s cfg calls).Runs (readSem s.uuid kms) w' answers w₁) ↔
      ∃ w₁, (readAll s cfg calls).Runs (readSem s.uuid kms) ⟨w.store, w'.base⟩ answers w₁

theorem reads_authorize (uuid : UUIDPkg) (cfg : AuthorizationConfig) (ctx : CallContext)
    (reqContext : Option RequesterContext) (operation : String) (keyID : KeyID) :
    Act.Only EffectOp.Reads (authorize uuid cfg ctx reqContext operation keyID) := by
  have haudit : ∀ identity decision,
      Act.Only EffectOp.Reads (auditDecision uuid identity operation keyID decision) :=
    fun _ _ => .bind (.call (.inl rfl)) fun _ => .pure _
  have hcheck : ∀ user, Act.Only EffectOp.Reads
      (checkAuthorization getKeyAnswer cfg user operation keyID reqContext) := by
    intro user
    refine .ite (.pure _) (.ite (.pure _) (.ite ?_ (.pure _)))
    refine .bind (Act.Only.attempt ?_) fun _ => .pure _
    exact only_repo (.getKey keyID)
  unfold authorize
  split
  · exact haudit _ _
  split
  · exact haudit _ _
  split
  · exact haudit _ _
  · refine .bind (.bind (.call (.inl rfl)) fun cached => ?_) fun _ => haudit _ _
    rcases cached with _ | _ | _
    · refine .bind (hcheck _) fun decision => .ite ?_ (.pure _)
      exact .bind (.call (.inl rfl)) fun _ => .pure _
    · exact .pure _
    · exact .pure _

theorem reads_readAll (s : KeyService) (cfg : AuthorizationConfig) (calls : List ReadCall) :
    (readAll s cfg calls).Only EffectOp.Reads := by
  induction calls with
  | nil => trivial
  | cons c cs ih =>
    refine .bind ?_ fun _ => ih.bind fun _ => trivial
    cases c with
    | getKey req => exact .bind (reads_getKey s req) fun _ => trivial
    | getKeyMetadata req => exact .bind (reads_getKeyMetadata s req) fun _ => trivial
    | authorize ctx reqContext operation keyID =>
      exact .bind (reads_authorize s.uuid cfg ctx reqContext operation keyID) fun _ => trivial

/-- Two worlds that readers cannot tell apart. -/
structure Alike (uuid : UUIDPkg) (w₁ w₂ : ObjectWorld) : Prop where
  base : w₁.base = w₂.base
  table : w₁.store.table = w₂.store.table
  rows : ∀ r ∈ w₁.store.table.rows, r.metadata ≠ none
  sees : ∀ t, w₁.base.clock ≤ t → ∀ id v,
    w₁.store.sees uuid t id v = w₂.store.sees uuid t id v

theorem Alike.symm {uuid : UUIDPkg} {w₁ w₂ : ObjectWorld} (h : Alike uuid w₁ w₂) :
    Alike uuid w₂ w₁ :=
  ⟨h.base.symm, h.table.symm, h.table ▸ h.rows,
    fun t ht id v => (h.sees t (h.base ▸ ht) id v).symm⟩

section Reading

variable {uuid : UUIDPkg} {kms : KMS} {now later : Time} {op : RepoOp}

/-- What is seen after a read is what was seen before. -/
theorem sees_call (uuid : UUIDPkg) (hop : op.SingleRead) (hle : now ≤ later) (st : ObjectStore) :
    (st.call uuid now later op).2.table = st.table ∧ ∀ t, later ≤ t → ∀ id v,
      (st.call uuid now later op).2.sees uuid t id v = st.sees uuid t id v := by
  cases hop with
  | getKey id =>
    refine ⟨ObjectStore.table_fetch, fun t ht id' v' => ?_⟩
    refine ObjectStore.sees_fetch hle (fun key hkey => ?_) ht id' v'
    simpa [ObjectStore.wrappedGet] using hkey
  | @getKeyByVersion id v hv =>
    refine ⟨ObjectStore.table_fetch, fun t ht id' v' => ?_⟩
    refine ObjectStore.sees_fetch hle (fun key hkey => ?_) ht id' v'
    simpa [ObjectStore.wrappedGet, hv.ne'] using hkey
  | getKeyMetadata id => exact ⟨rfl, fun _ _ _ _ => rfl⟩
  | getKeyMetadataByVersion id hv => exact ⟨rfl, fun _ _ _ _ => rfl⟩

/-- The answer of a read, from what is seen. -/
theorem call_eq_sees (hop : op.SingleRead) {st₁ st₂ : ObjectStore}
    (hrows₁ : ∀ r ∈ st₁.table.rows, r.metadata ≠ none)
    (hrows₂ : ∀ r ∈ st₂.table.rows, r.metadata ≠ none)
    (hsees : ∀ id v, st₁.sees uuid now id v = st₂.sees uuid now id v) :
    (st₁.call uuid now later op).1 = (st₂.call uuid now later op).1 := by
  cases hop with
  | getKey id =>
    have hkey : ∀ st : ObjectStore, (st.call uuid now later (.getKey id)).1 =
        st.sees uuid now id 0 := by
      intro st
      rw [← ObjectStore.fetch_fst uuid st now later]
      simp [ObjectStore.call, ObjectStore.wrappedGet]
    rw [hkey, hkey, hsees]
  | @getKeyByVersion id v hv =>
    have hkey : ∀ st : ObjectStore, (st.call uuid now later (.getKeyByVersion id v)).1 =
        st.sees uuid now id v := by
      intro st
      rw [← ObjectStore.fetch_fst uuid st now later]
      simp [ObjectStore.call, ObjectStore.wrappedGet, hv.ne']
    rw [hkey, hkey, hsees]
  | getKeyMetadata id =>
    change ObjectStore.fetchMetadata _ _ _ _ = ObjectStore.fetchMetadata _ _ _ _
    rw [ObjectStore.fetchMetadata_latest hrows₁, ObjectStore.fetchMetadata_latest hrows₂, hsees]
  | @getKeyMetadataByVersion id v hv =>
    change ObjectStore.fetchMetadata _ _ _ _ = ObjectStore.fetchMetadata _ _ _ _
    rw [ObjectStore.fetchMetadata_version hrows₁ id hv,
      ObjectStore.fetchMetadata_version hrows₂ id hv, hsees]

/-- **A read does not tell alike worlds apart**, and leaves alike worlds. -/
theorem Alike.step {w₁ w₂ w₁' : ObjectWorld} {op : EffectOp} {r : op.Res} (hop : op.Reads)
    (h : Alike uuid w₁ w₂) (hstep : readSem uuid kms op w₁ r w₁') :
    ∃ w₂', readSem uuid kms op w₂ r w₂' ∧ Alike uuid w₁' w₂' := by
  cases hrepo : op.isRepo with
  | true =>
    cases op with
    | repo rop =>
      have hread := hop.repo
      obtain ⟨now, later, hnow, hlater, hcall, hbase⟩ := hstep
      have hclock : w₁.base.clock ≤ later := hnow.trans hlater
      obtain ⟨htable₁, hsees₁⟩ := sees_call uuid hread hlater w₁.store
      obtain ⟨htable₂, hsees₂⟩ := sees_call uuid hread hlater w₂.store
      have hanswer : (w₂.store.call uuid now later rop).1 = r := by
        rw [← call_eq_sees hread h.rows (h.table ▸ h.rows) (h.sees now hnow), hcall]
      have hstore : (w₁.store.call uuid now later rop).2 = w₁'.store := congrArg Prod.snd hcall
      refine ⟨⟨(w₂.store.call uuid now later rop).2, { w₂.base with clock := later }⟩,
        ⟨now, later, h.base ▸ hnow, hlater, Prod.ext hanswer rfl, rfl⟩, ?_, ?_, ?_, ?_⟩
      · rw [hbase, h.base]
      · exact hstore ▸ htable₁.trans (h.table.trans htable₂.symm)
      · rw [← hstore, htable₁]
        exact h.rows
      · intro t ht id v
        rw [hbase] at ht
        rw [← hstore, hsees₁ t ht, hsees₂ t ht, h.sees t (hclock.trans ht)]
    | _ => cases hrepo
  | false =>
    have hother : w₁'.store = w₁.store ∧ worldSem uuid kms op w₁.base r w₁'.base := by
      cases op with
      | repo rop => cases hrepo
      | _ => exact hstep
    obtain ⟨hstore, hworld⟩ := hother
    have hclock : w₁.base.clock ≤ w₁'.base.clock := worldSem_clock hworld hrepo
    refine ⟨⟨w₂.store, w₁'.base⟩, ?_, rfl, hstore ▸ h.table, hstore ▸ h.rows, ?_⟩
    · have hstep' : w₂.store = w₂.store ∧ worldSem uuid kms op w₂.base r w₁'.base :=
        ⟨rfl, h.base ▸ hworld⟩
      cases op with
      | repo rop => cases hrepo
      | _ => exact hstep'
    · intro t ht id v
      rw [hstore]
      exact h.sees t (hclock.trans ht) id v

/-- Reads from alike worlds have the same answers. -/
theorem Alike.leavesReads {s : KeyService} {cfg : AuthorizationConfig} {w w' : ObjectWorld}
    (h : Alike s.uuid w' ⟨w.store, w'.base⟩) : LeavesReads s kms cfg w w' := by
  intro calls answers
  have hstep : ∀ op : EffectOp, op.Reads → ∀ w₁ w₂ r w₁', Alike s.uuid w₁ w₂ →
      readSem s.uuid kms op w₁ r w₁' → ∃ w₂', readSem s.uuid kms op w₂ r w₂' ∧
        Alike s.uuid w₁' w₂' := fun op hop _ _ _ _ halike hread => Alike.step hop halike hread
  constructor
  · rintro ⟨w₁, hrun⟩
    obtain ⟨w₂, hrun', -⟩ := (reads_readAll s cfg calls).simulate hstep h hrun
    exact ⟨w₂, hrun'⟩
  · rintro ⟨w₁, hrun⟩
    obtain ⟨w₂, hrun', -⟩ := (reads_readAll s cfg calls).simulate hstep h.symm hrun
    exact ⟨w₂, hrun'⟩

end Reading

/-! ## 2. The updates -/

/-- What the two methods do with objects. -/
inductive ObjectOp
  | getKey (id : KeyID)
  | timeNow
  | assign (ref : Nat) (key : Key)
  | updateKeyMetadata (id : KeyID) (ref : Nat)
  | updateBatchKeyMetadata (refs : List Nat)

@[reducible] def ObjectOp.Res : ObjectOp → Type
  -- the pointer, and what it points to
  | getKey _ => Except Err (Nat × Key)
  | timeNow => Time
  | assign _ _ => Unit
  | updateKeyMetadata _ _ | updateBatchKeyMetadata _ => Except Err Unit

@[reducible] def ObjectEffect : Interface := ⟨ObjectOp, ObjectOp.Res⟩

/-- The database does what is asked, or fails and changes nothing. -/
def writes (uuid : UUIDPkg) (now : Time) (op : RepoOp) (st : ObjectStore) (r : op.Answer)
    (st' : ObjectStore) : Prop :=
  st.passThrough uuid now op = (r, st') ∨ (∃ e, r = .error e) ∧ st' = st

/-- The calls of an update.  The database may fail at any of them. -/
def updateSem (uuid : UUIDPkg) : Sem ObjectEffect ObjectWorld
  | .getKey id, w, r, w' => ∃ now later wrapped, w.base.clock ≤ now ∧ now ≤ later ∧
      (wrapped = PSQLAdapter.getKey w.store.table id ∨ ∃ e, wrapped = .error e) ∧
      w.store.fetch uuid now later (getCacheKey uuid id 0) wrapped = (r, w'.store) ∧
      w'.base = { w.base with clock := later }
  | .timeNow, w, r, w' => w.base.clock ≤ r ∧ w' = ⟨w.store, { w.base with clock := r }⟩
  | .assign ref key, w, _, w' => w' = ⟨w.store.assign ref key, w.base⟩
  | .updateKeyMetadata id ref, w, r, w' => ∃ now, w.base.clock ≤ now ∧
      writes uuid now (.updateKeyMetadata id (w.store.heap[ref]?.bind Key.metadata)) w.store r
        w'.store ∧
      w'.base = { w.base with clock := now }
  | .updateBatchKeyMetadata refs, w, r, w' => ∃ now, w.base.clock ≤ now ∧
      writes uuid now (.updateBatchKeyMetadata (refs.filterMap fun ref => w.store.heap[ref]?))
        w.store r w'.store ∧
      w'.base = { w.base with clock := now }

namespace Objects

/-- `keyServiceImpl.UpdateKeyMetadata`. -/
def updateKeyMetadata (s : KeyService) (req : UpdateKeyMetadataRequest) :
    Act ObjectEffect Err Unit := do
  let keyID ← Act.ofExcept (keyIDFromString s.uuid req.item.keyId)
  let (ref, key) ← Act.mapError (Err.wrap "failed to get key: ")
    (Act.tryCall (I := ObjectEffect) (.getKey keyID) fun r => r)
  let description ← Act.ofExcept (KeyService.checkDescription req.item)
  match Key.metadata key with
  | none => Act.throw .nilPointer
  | some m => do
    let now ← Act.call (I := ObjectEffect) .timeNow
    Act.call (I := ObjectEffect) (.assign ref { key with
      metadata := some { KeyService.applyChanges req.item description m with
        updatedAt := some now } })
    Act.mapError (Err.wrap "failed to update metadata: ")
      (Act.tryCall (I := ObjectEffect) (.updateKeyMetadata keyID ref) fun r => r)

/-- One turn of the loop of `BatchUpdateKeyMetadata`. -/
def updateItem (s : KeyService) (item : UpdateKeyMetadataItem) :
    Act ObjectEffect Err (Except (String × Err) Nat) :=
  match keyIDFromString s.uuid item.keyId with
  | .error e => pure (.error (e.text, e.wrap "invalid key ID in batch request: "))
  | .ok keyID => do
    let current ← Act.attempt (Act.tryCall (I := ObjectEffect) (.getKey keyID) fun r => r)
    match current with
    | .error e =>
      let e' := Err.wrap "failed to get key for update: " e
      pure (.error (e'.text, e'))
    | .ok (ref, key) =>
      match KeyService.checkDescription item with
      | .error e =>
        let e' := e.wrap "invalid description: "
        pure (.error (e'.text, e'))
      | .ok description =>
        match Key.metadata key with
        | none => Act.throw .nilPointer
        | some m => do
          let now ← Act.call (I := ObjectEffect) .timeNow
          Act.call (I := ObjectEffect)
            (.assign ref (KeyService.applyItem item description now key m))
          pure (.ok ref)

/-- The loop of `BatchUpdateKeyMetadata`: the pointers to write, and the items that failed. -/
def updateLoop (s : KeyService) (continueOnError : Bool) :
    List UpdateKeyMetadataItem → Act ObjectEffect Err (List Nat × List (ItemResult Unit))
  | [] => pure ([], [])
  | item :: items => do
    let r ← updateItem s item
    match r with
    | .error (text, e) =>
      if !continueOnError then Act.throw e
      else do
        let (refs, failed) ← updateLoop s continueOnError items
        pure (refs, ⟨item.keyId, .error text⟩ :: failed)
    | .ok ref => do
      let (refs, failed) ← updateLoop s continueOnError items
      pure (ref :: refs, failed)

/-- The end of `BatchUpdateKeyMetadata`, given what the repository said. -/
def report (req : BatchUpdateKeyMetadataRequest) (failed : List (ItemResult Unit)) :
    Except Err Unit → Act ObjectEffect Err (BatchResponse Unit)
  | .error e =>
    if !req.continueOnError then
      Act.throw (e.wrap "failed to update batch key metadata in repository: ")
    else do
      let now ← Act.call (I := ObjectEffect) .timeNow
      pure ⟨failed ++ req.keys.map fun item => ⟨item.keyId, .error e.text⟩, now, 0,
        failed.length + req.keys.length⟩
  | .ok _ => do
    let now ← Act.call (I := ObjectEffect) .timeNow
    pure ⟨failed ++ req.keys.map fun item => ⟨item.keyId, .ok ()⟩, now, req.keys.length,
      failed.length⟩

/-- `keyServiceImpl.BatchUpdateKeyMetadata`. -/
def batchUpdateKeyMetadata (s : KeyService) (req : BatchUpdateKeyMetadataRequest) :
    Act ObjectEffect Err (BatchResponse Unit) :=
  if !hasIdentity req.requesterContext then Act.throw (.of .errInvalidRequest)
  else do
    let (keysToUpdate, failed) ← updateLoop s req.continueOnError req.keys
    let updated ← Act.attempt
      (Act.tryCall (I := ObjectEffect) (.updateBatchKeyMetadata keysToUpdate) fun r => r)
    report req failed updated

end Objects

/-! ## 3. The two embeddings

`KeyService.updateKeyMetadata` and `KeyService.batchUpdateKeyMetadata` say what the methods do over
a repository that returns a new object from every `GetKey`, as `PSQLAdapter` does: the object of one
call is seen by nobody else, and an assignment to it is seen in the write only.  Made over such
objects, the methods of this module are those, call by call. -/

/-- The calls of the methods over a repository whose `GetKey` returns a new object. -/
def newObjects : (op : ObjectOp) → List Key → Prog Effect (op.Res × List Key)
  | .getKey id, heap => .call (.repo (.getKey id)) fun
    | .ok key => .ret (.ok (heap.length, key), heap ++ [key])
    | .error e => .ret (.error e, heap)
  | .timeNow, heap => .call .timeNow fun now => .ret (now, heap)
  | .assign ref key, heap => .ret ((), heap.set ref key)
  | .updateKeyMetadata id ref, heap =>
    .call (.repo (.updateKeyMetadata id (heap[ref]?.bind Key.metadata))) fun r => .ret (r, heap)
  | .updateBatchKeyMetadata refs, heap =>
    .call (.repo (.updateBatchKeyMetadata (refs.filterMap fun ref => heap[ref]?))) fun r =>
      .ret (r, heap)

/-- A method over new objects, from some heap. -/
def overNewObjects {α : Type} (a : Act ObjectEffect Err α) (heap : List Key) :
    Prog Effect (Except Err α × List Key) :=
  Prog.interpret newObjects a heap

/-- An assignment to the new object leaves the others. -/
theorem prefix_set_new (heap : List Key) (key key' : Key) :
    heap <+: (heap ++ [key]).set heap.length key' := by simp

theorem getElem?_set_new (heap : List Key) (key key' : Key) :
    ((heap ++ [key]).set heap.length key')[heap.length]? = some key' := by simp

/-- A write of an object is a write of what is in it. -/
theorem same_write {heap : List Key} {ref : Nat} {key : Key} (h : heap[ref]? = some key)
    (keyID : KeyID) (wrap : Err → Err) :
    Prog.Same (fun out r => out.1 = r)
      (overNewObjects (Act.mapError wrap
        (Act.tryCall (I := ObjectEffect) (.updateKeyMetadata keyID ref) fun r => r)) heap)
      (Act.mapError wrap (repo (.updateKeyMetadata keyID key.metadata))) := by
  have hmetadata : heap[ref]?.bind Key.metadata = key.metadata := by rw [h]; rfl
  rw [← hmetadata]
  exact .call _ fun r => .ret rfl

/-- **`UpdateKeyMetadata` over new objects** is the service's. -/
theorem updateKeyMetadata_newObjects (s : KeyService) (req : UpdateKeyMetadataRequest)
    (heap : List Key) :
    Prog.Same (fun out r => out.1 = r) (overNewObjects (Objects.updateKeyMetadata s req) heap)
      (s.updateKeyMetadata req) := by
  unfold Objects.updateKeyMetadata KeyService.updateKeyMetadata
  cases keyIDFromString s.uuid req.item.keyId with
  | error e => exact .ret rfl
  | ok keyID =>
    refine .call _ fun r => ?_
    cases r with
    | error e => exact .ret rfl
    | ok key =>
      obtain ⟨id, version, metadata, encryptedDEK, status, createdAt, updatedAt, revokedAt⟩ := key
      cases KeyService.checkDescription req.item with
      | error e => exact .ret rfl
      | ok description =>
        cases metadata with
        | none => exact .ret rfl
        | some m =>
          exact .call _ fun now => same_write (getElem?_set_new heap _ _) keyID _

/-- One turn of the two loops: a pointer to the key. -/
inductive ItemSame (heap : List Key) : Except Err (Except (String × Err) Nat) × List Key →
    Except Err (Except (String × Err) Key) → Prop
  | edited {heap' : List Key} {ref : Nat} {key : Key} (hheap : heap <+: heap')
    (href : heap'[ref]? = some key) : ItemSame heap (.ok (.ok ref), heap') (.ok (.ok key))
  | refused {heap' : List Key} (hheap : heap <+: heap') (x : String × Err) :
    ItemSame heap (.ok (.error x), heap') (.ok (.error x))
  | failed (heap' : List Key) (e : Err) : ItemSame heap (.error e, heap') (.error e)

theorem updateItem_newObjects (s : KeyService) (item : UpdateKeyMetadataItem) (heap : List Key) :
    Prog.Same (ItemSame heap) (overNewObjects (Objects.updateItem s item) heap)
      (s.updateItem item) := by
  unfold Objects.updateItem KeyService.updateItem
  cases keyIDFromString s.uuid item.keyId with
  | error e => exact .ret (.refused (List.prefix_refl heap) _)
  | ok keyID =>
    refine .call _ fun r => ?_
    cases r with
    | error e => exact .ret (.refused (List.prefix_refl heap) _)
    | ok key =>
      obtain ⟨id, version, metadata, encryptedDEK, status, createdAt, updatedAt, revokedAt⟩ := key
      cases KeyService.checkDescription item with
      | error e => exact .ret (.refused (List.prefix_append heap _) _)
      | ok description =>
        cases metadata with
        | none => exact .ret (.failed _ _)
        | some m =>
          exact .call _ fun now =>
            .ret (.edited (prefix_set_new heap _ _) (getElem?_set_new heap _ _))

/-- The ends of the two loops: pointers to the keys. -/
inductive LoopSame (heap : List Key) :
    Except Err (List Nat × List (ItemResult Unit)) × List Key →
    Except Err (List Key × List (ItemResult Unit)) → Prop
  | done {heap' : List Key} {refs : List Nat} {keys : List Key} (failed : List (ItemResult Unit))
    (hheap : heap <+: heap') (hrefs : (refs.map fun ref => heap'[ref]?) = keys.map some) :
    LoopSame heap (.ok (refs, failed), heap') (.ok (keys, failed))
  | failed (heap' : List Key) (e : Err) : LoopSame heap (.error e, heap') (.error e)

theorem updateLoop_newObjects (s : KeyService) (continueOnError : Bool)
    (items : List UpdateKeyMetadataItem) (heap : List Key) :
    Prog.Same (LoopSame heap) (overNewObjects (Objects.updateLoop s continueOnError items) heap)
      (s.updateLoop continueOnError items) := by
  induction items generalizing heap with
  | nil => exact .ret (.done [] (List.prefix_refl heap) rfl)
  | cons item items ih =>
    refine .interpret_bind (updateItem_newObjects s item heap) fun out r hout => ?_
    cases hout with
    | failed heap' e => exact .ret (.failed heap' e)
    | @refused heap' hheap x =>
      obtain ⟨text, e⟩ := x
      cases continueOnError with
      | false => exact .ret (.failed heap' e)
      | true =>
        refine .interpret_bind (ih heap') fun out r hout => ?_
        cases hout with
        | failed heap'' e => exact .ret (.failed heap'' e)
        | done failed hheap' hrefs => exact .ret (.done _ (hheap.trans hheap') hrefs)
    | @edited heap' ref key hheap href =>
      refine .interpret_bind (ih heap') fun out r hout => ?_
      cases hout with
      | failed heap'' e => exact .ret (.failed heap'' e)
      | @done heap'' refs keys failed hheap' hrefs =>
        -- later turns leave the object alone
        have hstays : heap''[ref]? = some key := by
          obtain ⟨hlt, hkey⟩ := List.getElem?_eq_some_iff.mp href
          rw [← hkey]
          exact (List.prefix_iff_getElem?.mp hheap') ref hlt
        refine .ret (.done failed (hheap.trans hheap') ?_)
        rw [List.map_cons, List.map_cons, hstays, hrefs]

/-- What the pointers of the loop point to. -/
theorem filterMap_refs {heap : List Key} {refs : List Nat} {keys : List Key}
    (h : (refs.map fun ref => heap[ref]?) = keys.map some) :
    refs.filterMap (fun ref => heap[ref]?) = keys := by
  have hflat : refs.filterMap (fun ref => heap[ref]?) =
      (refs.map fun ref => heap[ref]?).filterMap id := by
    rw [List.filterMap_map]
    rfl
  rw [hflat, h, List.filterMap_map]
  exact List.filterMap_some

/-- **`BatchUpdateKeyMetadata` over new objects** is the service's. -/
theorem batchUpdateKeyMetadata_newObjects (s : KeyService) (req : BatchUpdateKeyMetadataRequest)
    (heap : List Key) :
    Prog.Same (fun out r => out.1 = r) (overNewObjects (Objects.batchUpdateKeyMetadata s req) heap)
      (s.batchUpdateKeyMetadata req) := by
  unfold Objects.batchUpdateKeyMetadata KeyService.batchUpdateKeyMetadata
  cases hasIdentity req.requesterContext with
  | false => exact .ret rfl
  | true =>
    refine .interpret_bind (updateLoop_newObjects s req.continueOnError req.keys heap)
      fun out r hout => ?_
    cases hout with
    | failed heap' e => exact .ret rfl
    | @done heap' refs keys failed hheap hrefs =>
      obtain rfl := filterMap_refs hrefs
      refine .call _ fun updated => ?_
      cases updated with
      | ok _ => exact .call _ fun now => .ret rfl
      | error e =>
        dsimp only [Objects.report]
        cases req.continueOnError with
        | false => exact .ret rfl
        | true => exact .call _ fun now => .ret rfl

/-! ## 4. Calls that cannot edit

Up to the first assignment an update does what a reader does: it gets a key. So where it fails
before that, it leaves a world that readers cannot tell from the one before. -/

/-- An update with this item can get as far as an edit. -/
def Editable (s : KeyService) (t : Table) (item : UpdateKeyMetadataItem) : Prop :=
  ∃ id r description, keyIDFromString s.uuid item.keyId = .ok id ∧ t.latest id = some r ∧
    KeyService.checkDescription item = .ok description

section Failing

variable {s : KeyService} {w w' : ObjectWorld}

/-- A store that is as it was. -/
theorem Alike.of_store {uuid : UUIDPkg} (hw : w.store.Sane uuid) (h : w'.store = w.store) :
    Alike uuid w' ⟨w.store, w'.base⟩ :=
  ⟨rfl, h ▸ rfl, h ▸ hw.rows, fun _ _ _ _ => h ▸ rfl⟩

/-- To get a key changes nothing for readers; it succeeds only if there is one. -/
theorem alike_getKey {uuid : UUIDPkg} (hw : w.store.Sane uuid) {id : KeyID}
    {r : Except Err (Nat × Key)} (h : updateSem uuid (.getKey id) w r w') :
    Alike uuid w' ⟨w.store, w'.base⟩ ∧ ∀ object, r = .ok object →
      ∃ row, w.store.table.latest id = some row := by
  obtain ⟨now, later, wrapped, -, hlater, hwrapped, hfetch, hbase⟩ := h
  have hstore : (w.store.fetch uuid now later (getCacheKey uuid id 0) wrapped).2 = w'.store :=
    congrArg Prod.snd hfetch
  have htable : w'.store.table = w.store.table := hstore ▸ ObjectStore.table_fetch
  constructor
  · refine ⟨rfl, htable, htable ▸ hw.rows, fun t ht id' v' => ?_⟩
    rw [hbase] at ht
    rw [← hstore]
    refine ObjectStore.sees_fetch hlater (fun key hkey => ?_) ht id' v'
    rcases hwrapped with hget | ⟨e, he⟩
    · rw [ObjectStore.wrappedGet, if_pos rfl, ← hget, hkey]
    · rw [he] at hkey
      cases hkey
  · rintro object rfl
    cases hrow : w.store.table.latest id with
    | some row => exact ⟨row, rfl⟩
    | none =>
      have hmiss : w.store.find now (getCacheKey uuid id 0) = none := hw.find_none hrow
      unfold ObjectStore.fetch at hfetch
      rw [hmiss] at hfetch
      rcases hwrapped with rfl | ⟨e, rfl⟩
      · rw [PSQLAdapter.getKey, hrow] at hfetch
        cases (Prod.mk.inj hfetch).1
      · cases (Prod.mk.inj hfetch).1

theorem alike_updateKeyMetadata (hw : w.store.Sane s.uuid) {req : UpdateKeyMetadataRequest}
    (hreq : ¬ Editable s w.store.table req.item) {e : Err}
    (hrun : Act.Runs (updateSem s.uuid) (Objects.updateKeyMetadata s req) w (.error e) w') :
    Alike s.uuid w' ⟨w.store, w'.base⟩ := by
  rcases Act.runs_bind.mp hrun with ⟨keyID, w₁, ⟨hid, rfl⟩, hrest⟩ | ⟨_, -, -, rfl⟩
  · rcases Act.runs_bind.mp hrest with ⟨object, w₂, hget, hrest⟩ | ⟨_, -, hget⟩
    · obtain ⟨x, hcall, rfl⟩ := Act.runs_tryCall.mp (Act.runs_mapError_ok.mp hget)
      obtain ⟨halike, hrow⟩ := alike_getKey hw hcall
      rcases Act.runs_bind.mp hrest with ⟨description, w₃, ⟨hd, -⟩, -⟩ | ⟨_, -, -, rfl⟩
      · obtain ⟨row, hrow⟩ := hrow object rfl
        exact absurd ⟨keyID, row, description, hid.symm, hrow, hd.symm⟩ hreq
      · exact halike
    · obtain ⟨x, hcall, -⟩ := Act.runs_mapError.mp hget
      obtain ⟨y, hcall, -⟩ := Act.runs_tryCall.mp hcall
      exact (alike_getKey hw hcall).1
  · exact .of_store hw rfl

theorem alike_updateItem (hw : w.store.Sane s.uuid) {item : UpdateKeyMetadataItem}
    (hitem : ¬ Editable s w.store.table item) {x : Except Err (Except (String × Err) Nat)}
    (hrun : Act.Runs (updateSem s.uuid) (Objects.updateItem s item) w x w') :
    Alike s.uuid w' ⟨w.store, w'.base⟩ ∧ ∃ refusal, x = .ok (.error refusal) := by
  unfold Objects.updateItem at hrun
  split at hrun
  · obtain ⟨rfl, rfl⟩ := hrun
    exact ⟨.of_store hw rfl, _, rfl⟩
  · rename_i keyID hid
    rcases Act.runs_bind.mp hrun with ⟨current, w₁, hget, hrest⟩ | ⟨_, -, hget⟩
    · obtain ⟨y, hcall, rfl⟩ := Act.runs_tryCall.mp (Act.runs_attempt.mp hget)
      obtain ⟨halike, hrow⟩ := alike_getKey hw hcall
      split at hrest
      · obtain ⟨rfl, rfl⟩ := hrest
        exact ⟨halike, _, rfl⟩
      · split at hrest
        · obtain ⟨rfl, rfl⟩ := hrest
          exact ⟨halike, _, rfl⟩
        · rename_i description hd
          obtain ⟨row, hrow⟩ := hrow _ rfl
          exact absurd ⟨keyID, row, description, hid, hrow, hd⟩ hitem
    · obtain ⟨_, _, -, hattempt, -⟩ := Prog.runs_bind.mp hget
      cases hattempt

/-- The request of a batch gets as far as an edit with its first item, or not at all. -/
def BatchEditable (s : KeyService) (t : Table) (req : BatchUpdateKeyMetadataRequest) : Prop :=
  hasIdentity req.requesterContext = true ∧ ∃ item, req.keys.head? = some item ∧ Editable s t item

/-- The report fails only after a write that failed. -/
theorem runs_report {req : BatchUpdateKeyMetadataRequest} {failed : List (ItemResult Unit)}
    {updated : Except Err Unit} {e : Err}
    (hrun : Act.Runs (updateSem s.uuid) (Objects.report req failed updated) w (.error e) w') :
    (∃ e', updated = .error e') ∧ w' = w := by
  have hnow : ∀ {f : Time → BatchResponse Unit}, ¬ Act.Runs (updateSem s.uuid)
      (do let now ← Act.call (I := ObjectEffect) .timeNow; pure (f now)) w (.error e) w' := by
    intro f hrun
    rcases Act.runs_bind.mp hrun with ⟨_, _, -, hpure, -⟩ | ⟨_, -, hcall⟩
    · cases hpure
    · obtain ⟨_, _, -, hret, -⟩ := hcall
      cases hret
  cases updated with
  | ok _ => exact absurd hrun hnow
  | error e' =>
    simp only [Objects.report] at hrun
    split at hrun
    · exact ⟨⟨e', rfl⟩, hrun.2⟩
    · exact absurd hrun hnow

/-- Where the first item is refused, the loop ends with it. -/
theorem alike_updateLoop (hw : w.store.Sane s.uuid) {item : UpdateKeyMetadataItem}
    (hitem : ¬ Editable s w.store.table item) {items : List UpdateKeyMetadataItem}
    {x : Except Err (List Nat × List (ItemResult Unit))}
    (hrun : Act.Runs (updateSem s.uuid) (Objects.updateLoop s false (item :: items)) w x w') :
    Alike s.uuid w' ⟨w.store, w'.base⟩ ∧ ∃ e, x = .error e := by
  rcases Act.runs_bind.mp hrun with ⟨y, w₁, hfirst, hrest⟩ | ⟨e, rfl, hfirst⟩
  · obtain ⟨halike, ⟨text, e⟩, hrefused⟩ := alike_updateItem hw hitem hfirst
    cases hrefused
    obtain ⟨rfl, rfl⟩ := hrest
    exact ⟨halike, e, rfl⟩
  · exact ⟨(alike_updateItem hw hitem hfirst).1, e, rfl⟩

theorem alike_batchUpdateKeyMetadata (hw : w.store.Sane s.uuid)
    {req : BatchUpdateKeyMetadataRequest} (hcontinue : req.continueOnError = false)
    (hreq : ¬ BatchEditable s w.store.table req) {e : Err}
    (hrun : Act.Runs (updateSem s.uuid) (Objects.batchUpdateKeyMetadata s req) w (.error e) w') :
    Alike s.uuid w' ⟨w.store, w'.base⟩ := by
  unfold Objects.batchUpdateKeyMetadata at hrun
  split at hrun
  · obtain ⟨-, rfl⟩ := hrun
    exact .of_store hw rfl
  rename_i hidentity
  rw [hcontinue] at hrun
  cases hkeys : req.keys with
  | nil =>
    rw [hkeys] at hrun
    rcases Act.runs_bind.mp hrun with ⟨out, w₁, ⟨hout, rfl⟩, hrest⟩ | ⟨_, -, hloop, -⟩
    · cases hout
      rcases Act.runs_bind.mp hrest with ⟨updated, w₂, hwrite, hreport⟩ | ⟨_, -, hwrite⟩
      · obtain ⟨⟨e', rfl⟩, rfl⟩ := runs_report hreport
        obtain ⟨y, ⟨now, -, hwrites, -⟩, rfl⟩ := Act.runs_tryCall.mp (Act.runs_attempt.mp hwrite)
        rcases hwrites with hpass | ⟨-, hstore⟩
        · -- the write of an empty batch cannot fail on a database that works
          cases (Prod.mk.inj hpass).1
        · exact .of_store hw hstore
      · obtain ⟨_, _, -, hattempt, -⟩ := Prog.runs_bind.mp hwrite
        cases hattempt
    · cases hloop
  | cons item items =>
    have hitem : ¬ Editable s w.store.table item := by
      intro h
      exact hreq ⟨by simpa using hidentity, item, by simp [hkeys], h⟩
    rw [hkeys] at hrun
    rcases Act.runs_bind.mp hrun with ⟨out, w₁, hloop, -⟩ | ⟨_, -, hloop⟩
    · obtain ⟨-, e', he⟩ := alike_updateLoop hw hitem hloop
      cases he
    · exact (alike_updateLoop hw hitem hloop).1

end Failing

/-! ## 5. Calls that edit

For the other direction a run is needed that fails after an edit, and a read that sees the edit.
The time of the update is the mark: the edit sets `UpdatedAt` in the object to the present, and
the run is made at a time that is not the one in the row. -/

/-- Readers find an object under the id of a key that was edited at the present time. -/
def Marked (uuid : UUIDPkg) (id : KeyID) (w : ObjectWorld) : Prop :=
  ∃ ref key m, w.store.find w.base.clock (getCacheKey uuid id 0) = some (ref, key) ∧
    key.metadata = some m ∧ m.updatedAt = some w.base.clock

section Editing

variable {s : KeyService} {kms : KMS} {cfg : AuthorizationConfig} {w w' : ObjectWorld} {id : KeyID}

/-- What `GetKeyMetadata` can answer, the database working. -/
theorem runs_getKeyMetadata_read {keyId : String} {m : KeyMetadata} {resp : GetKeyMetadataResponse}
    (hid : keyIDFromString s.uuid keyId = .ok id)
    (hsees : ∀ now, w.base.clock ≤ now → w.store.fetchMetadata now (getCacheKey s.uuid id 0)
      (PSQLAdapter.getKeyMetadata w.store.table id) = .ok (some m))
    (hrun : Act.Runs (readSem s.uuid kms) (s.getKeyMetadata ⟨keyId, 0, none⟩) w (.ok resp) w') :
    resp.metadata = some m := by
  obtain ⟨keyID, w₁, ⟨hkeyID, rfl⟩, hrest⟩ := Act.runs_bind_ok.mp hrun
  rw [hid] at hkeyID
  cases hkeyID
  obtain ⟨metadata, w₂, hget, hrest⟩ := Act.runs_bind_ok.mp hrest
  rw [if_neg (lt_irrefl 0)] at hget
  obtain ⟨x, ⟨now, later, hnow, -, hcall, -⟩, rfl⟩ := Act.runs_tryCall.mp hget
  have hmetadata : (.ok (some m) : Except Err (Option KeyMetadata)) = .ok metadata :=
    (hsees now hnow).symm.trans (congrArg Prod.fst hcall)
  cases hmetadata
  obtain ⟨_, w₃, -, hrest⟩ := Act.runs_bind_ok.mp hrest
  obtain ⟨_, w₄, -, hpure, -⟩ := Act.runs_bind_ok.mp hrest
  cases hpure
  rfl

/-- An answer that `GetKeyMetadata` can give at the present time. -/
theorem exists_getKeyMetadata_read (kms : KMS) {keyId : String} {m : KeyMetadata}
    (hid : keyIDFromString s.uuid keyId = .ok id)
    (hsees : w.store.fetchMetadata w.base.clock (getCacheKey s.uuid id 0)
      (PSQLAdapter.getKeyMetadata w.store.table id) = .ok (some m)) :
    ∃ resp w', Act.Runs (readSem s.uuid kms) (s.getKeyMetadata ⟨keyId, 0, none⟩) w (.ok resp) w' ∧
      resp.metadata = some m := by
  have hparse : Act.Runs (readSem s.uuid kms) (Act.ofExcept ((keyIDFromString s.uuid keyId).mapError
      (Err.wrap₂ (.of .errInvalidInput)))) w (.ok id) w := ⟨by rw [hid]; rfl, rfl⟩
  have hget : Act.Runs (readSem s.uuid kms) (if (0 : Int) < 0 then
      repo (.getKeyMetadataByVersion id 0) else repo (.getKeyMetadata id) :
        Svc (Option KeyMetadata))
      w (.ok (some m)) w := by
    rw [if_neg (lt_irrefl 0)]
    exact Act.runs_tryCall.mpr ⟨.ok (some m),
      ⟨w.base.clock, w.base.clock, le_rfl, le_rfl, Prod.ext hsees rfl, rfl⟩, rfl⟩
  have hnow : Act.Runs (readSem s.uuid kms) (Act.call (I := Effect) .timeNow : Svc Time) w
      (.ok w.base.clock) w :=
    Act.runs_call.mpr ⟨rfl, w.base.clock, le_rfl, rfl, rfl⟩
  have haudit : ∀ event, Act.Runs (readSem s.uuid kms)
      (Act.call (I := Effect) (.auditLog event) : Svc Unit) w (.ok ())
      ⟨w.store, { w.base with audit := w.base.audit ++ [event] }⟩ := fun event =>
    Act.runs_call.mpr ⟨rfl, w.base.clock, le_rfl, rfl⟩
  refine Act.exists_runs_bind hparse (Act.exists_runs_bind hget (Act.exists_runs_bind hnow ?_))
  exact Act.exists_runs_bind (haudit _) ⟨_, _, ⟨rfl, rfl⟩, rfl⟩

/-- A single read of metadata. -/
theorem runs_readOne {req : GetKeyMetadataRequest} {r : Except Err GetKeyMetadataResponse} :
    (∃ w₁, (readAll s cfg [.getKeyMetadata req]).Runs (readSem s.uuid kms) w [.metadata r] w₁) ↔
      ∃ w₁, Act.Runs (readSem s.uuid kms) (s.getKeyMetadata req) w r w₁ := by
  constructor
  · rintro ⟨w₁, hrun⟩
    obtain ⟨a, w₂, hread, hrest⟩ := Prog.runs_bind.mp hrun
    obtain ⟨r', w₃, hget, rfl, rfl⟩ := Prog.runs_bind.mp hread
    obtain ⟨as, w₄, -, has, -⟩ := Prog.runs_bind.mp hrest
    cases has
    exact ⟨w₂, hget⟩
  · rintro ⟨w₁, hget⟩
    have hread : ((ReadCall.getKeyMetadata req).prog s cfg).Runs
      (readSem s.uuid kms) w (.metadata r)
        w₁ := Prog.runs_bind.mpr ⟨r, w₁, hget, rfl, rfl⟩
    exact ⟨w₁, Prog.runs_bind.mpr ⟨_, w₁, hread, Prog.runs_bind.mpr ⟨[], w₁, ⟨rfl, rfl⟩, rfl, rfl⟩⟩⟩

/-- **An edit of the present time is seen**, where without the call the table would be read. -/
theorem Marked.not_leavesReads {keyId : String} {row : Row} {m : KeyMetadata}
    (h : Marked s.uuid id w') (hid : keyIDFromString s.uuid keyId = .ok id)
    (hmiss : w.store.find w'.base.clock (getCacheKey s.uuid id 0) = none)
    (hrow : w.store.table.latest id = some row) (hm : row.metadata = some m)
    (hm' : m.updatedAt ≠ some w'.base.clock) : ¬ LeavesReads s kms cfg w w' := by
  obtain ⟨ref, key, m', hfind, hkey, hupdated⟩ := h
  intro hleaves
  have hafter : w'.store.fetchMetadata w'.base.clock (getCacheKey s.uuid id 0)
      (PSQLAdapter.getKeyMetadata w'.store.table id) = .ok (some m') := by
    rw [ObjectStore.fetchMetadata, hfind, ← hkey]
  have hbefore : ∀ now, w'.base.clock ≤ now →
      w.store.fetchMetadata now (getCacheKey s.uuid id 0)
        (PSQLAdapter.getKeyMetadata w.store.table id) = .ok (some m) := by
    intro now hnow
    rw [ObjectStore.fetchMetadata, ObjectStore.find_none_mono hmiss hnow]
    simp [PSQLAdapter.getKeyMetadata, hrow, hm, PSQLAdapter.unmarshal]
  obtain ⟨resp, w₁, hrun, hresp⟩ := exists_getKeyMetadata_read kms hid hafter
  obtain ⟨w₂, hrun'⟩ := runs_readOne.mp ((hleaves _ _).mp (runs_readOne.mpr ⟨w₁, hrun⟩))
  have hsame := runs_getKeyMetadata_read hid hbefore hrun'
  rw [hresp] at hsame
  cases hsame
  exact hm' hupdated

/-- A time from which on the cache does not have the key, and which is not that of its last
update. -/
theorem exists_late (hw : w.store.Sane s.uuid) {row : Row}
    (hrow : w.store.table.latest id = some row) :
    ∃ m now, row.metadata = some m ∧ w.base.clock ≤ now ∧
      w.store.find now (getCacheKey s.uuid id 0) = none ∧ m.updatedAt ≠ some now := by
  obtain ⟨m, hm⟩ := Option.ne_none_iff_exists'.mp (hw.rows row (Table.latest_eq_some.mp hrow).1)
  have hlate : ∃ t, ∀ now, t < now → w.store.find now (getCacheKey s.uuid id 0) = none := by
    cases hlookup : w.store.cache.items.lookup (getCacheKey s.uuid id 0) with
    | none =>
      refine ⟨0, fun now _ => ObjectStore.find_eq_none.mpr fun i hi => ?_⟩
      rw [hlookup] at hi
      cases hi
    | some i =>
      refine ⟨i.expiresAt, fun now hnow => ObjectStore.find_eq_none.mpr fun i' hi' => ?_⟩
      rw [hlookup] at hi'
      cases hi'
      simp [Cache.Item.expired, (hw.entry _ i hlookup).1, hnow]
  obtain ⟨t, ht⟩ := hlate
  obtain ⟨n, hclock, hentry, hupdate⟩ : ∃ n, w.base.clock ≤ n ∧ t ≤ n ∧ m.updatedAt.getD 0 ≤ n :=
    ⟨max w.base.clock (max t (m.updatedAt.getD 0)), by simp, by simp, by simp⟩
  refine ⟨m, n + 1, hm, Int.le_add_one hclock, ht _ (Int.lt_add_one_of_le hentry), fun hsame => ?_⟩
  rw [hsame, Option.getD_some] at hupdate
  exact absurd hupdate (not_le_of_gt (Int.lt_succ n))

/-- An entry that has just been stored is found. -/
theorem Marked.of_store {uuid : UUIDPkg} (id : KeyID) (hw : w.store.Sane uuid) (now : Time)
    (k key : Key) {m : KeyMetadata} (hkey : key.metadata = some m) (hm : m.updatedAt = some now) :
    Marked uuid id ⟨(w.store.storeInCache uuid now (getCacheKey uuid id 0) k).assign
      w.store.heap.length key, { w.base with clock := now }⟩ := by
  have hlive : (w.store.cache.makeItem now w.store.heap.length 0).expired now = false := by
    refine Cache.Item.live_of_le ?_
    have hmake : (w.store.cache.makeItem now w.store.heap.length 0).expiresAt =
        now + defaultCacheTTL := by
      rw [← hw.ttl]
      rfl
    rw [hmake]
    exact Int.le_add_of_nonneg_right (by decide)
  refine ⟨w.store.heap.length, key, m, ?_, hkey, hm⟩
  rw [ObjectStore.find_assign, ObjectStore.find_storeInCache_self, hlive]
  simp

/-- Another edit of the present time does not hide the first. -/
theorem Marked.assign {uuid : UUIDPkg} (h : Marked uuid id w) (ref : Nat) {key : Key}
    {m : KeyMetadata} (hkey : key.metadata = some m) (hm : m.updatedAt = some w.base.clock) :
    Marked uuid id ⟨w.store.assign ref key, w.base⟩ := by
  obtain ⟨ref₀, key₀, m₀, hfind, hkey₀, hm₀⟩ := h
  by_cases href : ref₀ = ref
  · refine ⟨ref, key, m, ?_, hkey, hm⟩
    simp [ObjectStore.find_assign, hfind, href]
  · refine ⟨ref₀, key₀, m₀, ?_, hkey₀, hm₀⟩
    simp [ObjectStore.find_assign, hfind, href]

/-- To get a key that the cache does not have. -/
theorem runs_getKey_late {uuid : UUIDPkg} {now : Time} {row : Row} (hnow : w.base.clock ≤ now)
    (hmiss : w.store.find now (getCacheKey uuid id 0) = none)
    (hrow : w.store.table.latest id = some row) :
    updateSem uuid (.getKey id) w (.ok (w.store.heap.length, row.scan))
      ⟨w.store.storeInCache uuid now (getCacheKey uuid id 0) row.scan,
        { w.base with clock := now }⟩ := by
  refine ⟨now, now, PSQLAdapter.getKey w.store.table id, hnow, le_rfl, .inl rfl, ?_, rfl⟩
  simp [ObjectStore.fetch, hmiss, PSQLAdapter.getKey, hrow]

/-- An update whose description is refused has put the key into the cache by then. -/
theorem runs_updateKeyMetadata_refused (req : UpdateKeyMetadataRequest) {row : Row} {now : Time}
    {e : Err} (hid : keyIDFromString s.uuid req.item.keyId = .ok id) (hnow : w.base.clock ≤ now)
    (hmiss : w.store.find now (getCacheKey s.uuid id 0) = none)
    (hrow : w.store.table.latest id = some row)
    (hd : KeyService.checkDescription req.item = .error e) :
    Act.Runs (updateSem s.uuid) (Objects.updateKeyMetadata s req) w (.error e)
      ⟨w.store.storeInCache s.uuid now (getCacheKey s.uuid id 0) row.scan,
        { w.base with clock := now }⟩ := by
  have hget := runs_getKey_late hnow hmiss hrow
  refine Act.runs_bind.mpr (.inl ⟨id, w, ⟨hid.symm, rfl⟩, ?_⟩)
  refine Act.runs_bind.mpr (.inl ⟨_, _, Act.runs_mapError_ok.mpr
    (Act.runs_tryCall.mpr ⟨_, hget, rfl⟩),
    ?_⟩)
  exact Act.runs_bind.mpr (.inr ⟨e, rfl, hd.symm, rfl⟩)

/-- The error of a database that has gone away. -/
def connectionLost : Err := .new "connection lost"

/-- **A single update that can edit can fail after the edit.** -/
theorem exists_marked_updateKeyMetadata (hw : w.store.Sane s.uuid) {req : UpdateKeyMetadataRequest}
    {row : Row} {m : KeyMetadata} {description : Option String} {now : Time}
    (hid : keyIDFromString s.uuid req.item.keyId = .ok id)
    (hrow : w.store.table.latest id = some row) (hm : row.metadata = some m)
    (hd : KeyService.checkDescription req.item = .ok description) (hnow : w.base.clock ≤ now)
    (hmiss : w.store.find now (getCacheKey s.uuid id 0) = none) :
    ∃ e w', Act.Runs (updateSem s.uuid) (Objects.updateKeyMetadata s req) w (.error e) w' ∧
      Marked s.uuid id w' ∧ w'.base.clock = now := by
  have hget := runs_getKey_late hnow hmiss hrow
  have hmarked := Marked.of_store id hw now row.scan { row.scan with
    metadata := some { KeyService.applyChanges req.item description m with updatedAt := some now } }
    rfl rfl
  refine ⟨connectionLost.wrap "failed to update metadata: ", _, ?_, hmarked, rfl⟩
  refine Act.runs_bind.mpr (.inl ⟨id, w, ⟨hid.symm, rfl⟩, ?_⟩)
  refine Act.runs_bind.mpr (.inl ⟨_, _, Act.runs_mapError_ok.mpr
    (Act.runs_tryCall.mpr ⟨_, hget, rfl⟩),
    ?_⟩)
  refine Act.runs_bind.mpr (.inl ⟨description, _, ⟨hd.symm, rfl⟩, ?_⟩)
  have hscan : row.scan.metadata = some m := hm
  simp only [hscan]
  refine Act.runs_bind.mpr (.inl ⟨now, _, Act.runs_call.mpr ⟨le_rfl, rfl⟩, ?_⟩)
  refine Act.runs_bind.mpr (.inl ⟨(), _, Act.runs_call.mpr rfl, ?_⟩)
  exact Act.runs_mapError.mpr ⟨.error connectionLost, Act.runs_tryCall.mpr
    ⟨.error connectionLost, ⟨now, le_rfl, .inr ⟨⟨_, rfl⟩, rfl⟩, rfl⟩, rfl⟩, rfl⟩

/-- The edit of the first item of a batch. -/
theorem exists_marked_updateItem (hw : w.store.Sane s.uuid) {item : UpdateKeyMetadataItem}
    {row : Row} {m : KeyMetadata} {description : Option String} {now : Time}
    (hid : keyIDFromString s.uuid item.keyId = .ok id)
    (hrow : w.store.table.latest id = some row) (hm : row.metadata = some m)
    (hd : KeyService.checkDescription item = .ok description) (hnow : w.base.clock ≤ now)
    (hmiss : w.store.find now (getCacheKey s.uuid id 0) = none) :
    ∃ ref w', Act.Runs (updateSem s.uuid) (Objects.updateItem s item) w (.ok (.ok ref)) w' ∧
      Marked s.uuid id w' ∧ w'.base.clock = now := by
  have hget := runs_getKey_late hnow hmiss hrow
  have hmarked := Marked.of_store id hw now row.scan
    (KeyService.applyItem item description now row.scan m) rfl rfl
  refine ⟨w.store.heap.length, _, ?_, hmarked, rfl⟩
  have hscan : row.scan.metadata = some m := hm
  unfold Objects.updateItem
  simp only [hid]
  refine Act.runs_bind_ok.mpr ⟨_, _, Act.runs_attempt.mpr (Act.runs_tryCall.mpr ⟨_, hget, rfl⟩), ?_⟩
  simp only [hd, hscan]
  refine Act.runs_bind_ok.mpr ⟨now, _, Act.runs_call.mpr ⟨le_rfl, rfl⟩, ?_⟩
  exact Act.runs_bind_ok.mpr ⟨(), _, Act.runs_call.mpr rfl, rfl, rfl⟩

/-- A further item, at the same time, is refused or edits another object or the same again. -/
theorem Marked.updateItem (h : Marked s.uuid id w) (item : UpdateKeyMetadataItem) :
    ∃ x w', Act.Runs (updateSem s.uuid) (Objects.updateItem s item) w x w' ∧
      Marked s.uuid id w' ∧ w'.base = w.base := by
  unfold Objects.updateItem
  cases hid : keyIDFromString s.uuid item.keyId with
  | error e => exact ⟨_, w, ⟨rfl, rfl⟩, h, rfl⟩
  | ok keyID =>
    cases hfind : w.store.find w.base.clock (getCacheKey s.uuid keyID 0) with
    | none =>
      have hget : updateSem s.uuid (.getKey keyID) w (.error connectionLost) w := by
        refine ⟨w.base.clock, w.base.clock, .error connectionLost, le_rfl, le_rfl,
          .inr ⟨_, rfl⟩, ?_,
          rfl⟩
        simp [ObjectStore.fetch, hfind]
      exact ⟨_, w, Act.runs_bind.mpr (.inl ⟨_, w, Act.runs_attempt.mpr (Act.runs_tryCall.mpr
        ⟨_, hget, rfl⟩), rfl, rfl⟩), h, rfl⟩
    | some object =>
      obtain ⟨ref, key⟩ := object
      have hget : updateSem s.uuid (.getKey keyID) w (.ok (ref, key)) w := by
        refine ⟨w.base.clock, w.base.clock, _, le_rfl, le_rfl, .inl rfl, ?_, rfl⟩
        simp [ObjectStore.fetch, hfind]
      have hattempt : Act.Runs (updateSem s.uuid) (Act.attempt
          (Act.tryCall (I := ObjectEffect) (.getKey keyID) fun r => r)) w
            (.ok (.ok (ref, key))) w :=
        Act.runs_attempt.mpr (Act.runs_tryCall.mpr ⟨_, hget, rfl⟩)
      cases hd : KeyService.checkDescription item with
      | error e =>
        exact ⟨.ok (.error ((e.wrap "invalid description: ").text, e.wrap "invalid description: ")),
          w,
          Act.runs_bind.mpr (.inl ⟨_, w, hattempt, rfl, rfl⟩), h, rfl⟩
      | ok description =>
        cases hm : Key.metadata key with
        | none =>
          refine ⟨.error .nilPointer, w, Act.runs_bind.mpr (.inl ⟨_, w, hattempt, ?_⟩), h, rfl⟩
          simp only [hm]
          exact ⟨rfl, rfl⟩
        | some m =>
          have hmarked : Marked s.uuid id ⟨w.store.assign ref
              (KeyService.applyItem item description w.base.clock key m), w.base⟩ :=
            h.assign ref rfl rfl
          refine ⟨.ok (.ok ref), _, Act.runs_bind.mpr (.inl ⟨_, w, hattempt, ?_⟩), hmarked, rfl⟩
          simp only [hm]
          refine Act.runs_bind_ok.mpr ⟨w.base.clock, w, Act.runs_call.mpr ⟨le_rfl, rfl⟩, ?_⟩
          exact Act.runs_bind_ok.mpr ⟨(), _, Act.runs_call.mpr rfl, rfl, rfl⟩

/-- So the loop can go on to its end, or fail, with the first edit in place. -/
theorem Marked.updateLoop (h : Marked s.uuid id w) (items : List UpdateKeyMetadataItem) :
    ∃ x w', Act.Runs (updateSem s.uuid) (Objects.updateLoop s false items) w x w' ∧
      Marked s.uuid id w' ∧ w'.base = w.base := by
  induction items generalizing w with
  | nil => exact ⟨_, w, ⟨rfl, rfl⟩, h, rfl⟩
  | cons item items ih =>
    obtain ⟨x, w₁, hitem, h₁, hbase₁⟩ := h.updateItem item
    rcases x with e | ⟨text, e⟩ | ref
    · exact ⟨.error e, w₁, Act.runs_bind.mpr (.inr ⟨e, rfl, hitem⟩), h₁, hbase₁⟩
    · refine ⟨.error e, w₁, Act.runs_bind.mpr (.inl ⟨_, w₁, hitem, ?_⟩), h₁, hbase₁⟩
      exact ⟨rfl, rfl⟩
    · obtain ⟨y, w₂, hloop, h₂, hbase₂⟩ := ih h₁
      cases y with
      | error e =>
        refine ⟨.error e, w₂, Act.runs_bind.mpr (.inl ⟨_, w₁, hitem, ?_⟩), h₂, hbase₂.trans hbase₁⟩
        exact Act.runs_bind.mpr (.inr ⟨e, rfl, hloop⟩)
      | ok out =>
        refine ⟨.ok (ref :: out.1, out.2), w₂, Act.runs_bind.mpr (.inl ⟨_, w₁, hitem, ?_⟩), h₂,
          hbase₂.trans hbase₁⟩
        exact Act.runs_bind.mpr (.inl ⟨out, w₂, hloop, rfl, rfl⟩)

/-- **A batch whose first item can edit can fail after that edit**: at a later item, or at the
write. -/
theorem exists_marked_batchUpdateKeyMetadata (hw : w.store.Sane s.uuid)
    {req : BatchUpdateKeyMetadataRequest} {item : UpdateKeyMetadataItem}
    {items : List UpdateKeyMetadataItem} {row : Row} {m : KeyMetadata} {description : Option String}
    {now : Time} (hcontinue : req.continueOnError = false)
    (hidentity : hasIdentity req.requesterContext = true) (hkeys : req.keys = item :: items)
    (hid : keyIDFromString s.uuid item.keyId = .ok id)
    (hrow : w.store.table.latest id = some row) (hm : row.metadata = some m)
    (hd : KeyService.checkDescription item = .ok description) (hnow : w.base.clock ≤ now)
    (hmiss : w.store.find now (getCacheKey s.uuid id 0) = none) :
    ∃ e w', Act.Runs (updateSem s.uuid) (Objects.batchUpdateKeyMetadata s req) w (.error e) w' ∧
      Marked s.uuid id w' ∧ w'.base.clock = now := by
  obtain ⟨ref, w₁, hitem, h₁, hclock⟩ := exists_marked_updateItem hw hid hrow hm hd hnow hmiss
  obtain ⟨x, w₂, hloop, h₂, hbase⟩ := h₁.updateLoop items
  unfold Objects.batchUpdateKeyMetadata
  rw [hidentity, Bool.not_true, if_neg Bool.false_ne_true, hcontinue, hkeys]
  cases x with
  | error e =>
    have hfirst : Act.Runs (updateSem s.uuid) (Objects.updateLoop s false (item :: items)) w
        (.error e) w₂ :=
      Act.runs_bind.mpr (.inl ⟨_, w₁, hitem, Act.runs_bind.mpr (.inr ⟨e, rfl, hloop⟩)⟩)
    exact ⟨e, w₂, Act.runs_bind.mpr (.inr ⟨e, rfl, hfirst⟩), h₂, hbase ▸ hclock⟩
  | ok out =>
    have hfirst : Act.Runs (updateSem s.uuid) (Objects.updateLoop s false (item :: items)) w
        (.ok (ref :: out.1, out.2)) w₂ :=
      Act.runs_bind.mpr (.inl ⟨_, w₁, hitem, Act.runs_bind.mpr (.inl ⟨out, w₂, hloop, rfl, rfl⟩)⟩)
    have hwrite : Act.Runs (updateSem s.uuid) (Act.attempt (Act.tryCall (I := ObjectEffect)
        (.updateBatchKeyMetadata (ref :: out.1)) fun r => r)) w₂ (.ok (.error connectionLost)) w₂ :=
      Act.runs_attempt.mpr (Act.runs_tryCall.mpr
        ⟨.error connectionLost, ⟨w₂.base.clock, le_rfl, .inr ⟨⟨_, rfl⟩, rfl⟩, rfl⟩, rfl⟩)
    refine ⟨connectionLost.wrap "failed to update batch key metadata in repository: ", w₂,
      Act.runs_bind.mpr (.inl ⟨_, w₂, hfirst, Act.runs_bind.mpr (.inl ⟨_, w₂, hwrite, ?_⟩)⟩), h₂,
      hbase ▸ hclock⟩
    simp only [Objects.report, hcontinue]
    exact ⟨rfl, rfl⟩

end Editing

/-! ## 6. Which calls leave reads as they were -/

/-- **A failed update leaves reads as they were, if it cannot edit.**  From every store that can be
reached, and whatever the database does: the single update does so for exactly the requests whose
item cannot get as far as an edit, and the batch that stops at the first error for exactly those
whose first item cannot. -/
theorem failedUpdate_leavesReads (s : KeyService) (kms : KMS) (cfg : AuthorizationConfig)
    {w : ObjectWorld} (hw : ObjectStore.Reachable s.uuid w.store) :
    (∀ req : UpdateKeyMetadataRequest,
      (∀ e w', Act.Runs (updateSem s.uuid) (Objects.updateKeyMetadata s req) w (.error e) w' →
        LeavesReads s kms cfg w w') ↔ ¬ Editable s w.store.table req.item) ∧
    ∀ req : BatchUpdateKeyMetadataRequest, req.continueOnError = false →
      ((∀ e w', Act.Runs (updateSem s.uuid) (Objects.batchUpdateKeyMetadata s req) w (.error e) w' →
        LeavesReads s kms cfg w w') ↔ ¬ BatchEditable s w.store.table req) := by
  have hsane := hw.sane
  refine ⟨fun req => ⟨?_, fun hreq e w' hrun => ?_⟩,
    fun req hcontinue => ⟨?_, fun hreq e w' hrun => ?_⟩⟩
  · rintro hleaves ⟨id, row, description, hid, hrow, hd⟩
    obtain ⟨m, now, hm, hnow, hmiss, hupdated⟩ := exists_late hsane hrow
    obtain ⟨e, w', hrun, hmarked, rfl⟩ :=
      exists_marked_updateKeyMetadata hsane hid hrow hm hd hnow hmiss
    exact hmarked.not_leavesReads hid hmiss hrow hm hupdated (hleaves e w' hrun)
  · exact (alike_updateKeyMetadata hsane hreq hrun).leavesReads
  · rintro hleaves ⟨hidentity, item, hhead, id, row, description, hid, hrow, hd⟩
    obtain ⟨items, hkeys⟩ := List.head?_eq_some_iff.mp hhead
    obtain ⟨m, now, hm, hnow, hmiss, hupdated⟩ := exists_late hsane hrow
    obtain ⟨e, w', hrun, hmarked, rfl⟩ := exists_marked_batchUpdateKeyMetadata hsane hcontinue
      hidentity hkeys hid hrow hm hd hnow hmiss
    exact hmarked.not_leavesReads hid hmiss hrow hm hupdated (hleaves e w' hrun)
  · exact (alike_batchUpdateKeyMetadata hsane hcontinue hreq hrun).leavesReads

/-! ### A store with one key -/

def sampleStored : Key :=
  { sampleService.newKey sampleItem "alice" .hardened sampleID 1000 "" with encryptedDEK := [1] }

/-- The key has been created, and nobody has read it yet. -/
def sampleObjects : ObjectWorld :=
  ⟨((ObjectStore.new .empty).call googleUUID 1000 1000 (.createKey (some sampleStored))).2,
    .init 1000⟩

theorem sampleObjects_reachable : ObjectStore.Reachable sampleService.uuid sampleObjects.store := by
  refine Relation.ReflTransGen.single (.call 1000 1000 fun k hk => ?_)
  simp only [RepoOp.created, Option.toList_some, List.mem_singleton] at hk
  simp [hk, sampleStored, KeyService.newKey]

theorem sampleObjects_row : ∃ row m, sampleObjects.store.table.latest sampleID = some row ∧
    row.metadata = some m ∧ m.updatedAt = some 1000 := by
  have hrow : ((sampleObjects.store.table.latest sampleID).bind Row.metadata).any
      (fun m => m.updatedAt = some 1000) = true := by decide +kernel
  obtain ⟨m, hm, hupdated⟩ := (Option.any_eq_true ..).mp hrow
  obtain ⟨row, hrow, hmetadata⟩ := Option.bind_eq_some_iff.mp hm
  exact ⟨row, m, hrow, hmetadata, by simpa using hupdated⟩

/-- The cache is empty. -/
theorem sampleObjects_miss (now : Time) :
    sampleObjects.store.find now (getCacheKey sampleService.uuid sampleID 0) = none := rfl

/-- An update of the sample key, with this description. -/
def describe (text : String) : UpdateKeyMetadataRequest :=
  ⟨⟨sampleText, some text, none, none, ∅, [], ∅, [], []⟩, some sampleContext⟩

theorem describe_id (text : String) :
    keyIDFromString sampleService.uuid (describe text).item.keyId = .ok sampleID :=
  keyIDFromString_string _ _

/-- The same as a batch of one item. -/
def describeBatch (text : String) : BatchUpdateKeyMetadataRequest :=
  ⟨[(describe text).item], false, some sampleContext⟩

/-- A description that `NewDescription` refuses. -/
def tooLong : String := String.ofList (List.replicate 300 'a')

theorem trimSpace_replicate (n : Nat) :
    trimSpace (String.ofList (List.replicate n 'a')) = String.ofList (List.replicate n 'a') := by
  have ha : isSpace 'a' = false := by decide
  simp [trimSpace, ha]

theorem utf8ByteSize_replicate (n : Nat) :
    (String.ofList (List.replicate n 'a')).utf8ByteSize = n := by
  rw [String.utf8ByteSize_ofList]
  induction n with
  | zero => rfl
  | succ n ih =>
    rw [List.replicate_succ, String.utf8Len_cons, ih]
    rfl

theorem checkDescription_tooLong : KeyService.checkDescription (describe tooLong).item =
    .error (.new "description exceeds maximum length of 255") := by
  have hlong : maxDescriptionLength < (trimSpace tooLong).utf8ByteSize := by
    unfold tooLong
    rw [trimSpace_replicate, utf8ByteSize_replicate]
    decide
  simp only [KeyService.checkDescription, describe, newDescription, if_pos hlong]
  rfl

def noRoles : AuthorizationConfig := ⟨∅, false⟩

/-- The description of an update is too long. -/
theorem failedUpdate_leavesReads_refused : ∃ e w',
    Act.Runs (updateSem sampleService.uuid) (Objects.updateKeyMetadata sampleService
      (describe tooLong)) sampleObjects (.error e) w' ∧
      LeavesReads sampleService sampleKMS noRoles sampleObjects w' := by
  obtain ⟨row, m, hrow, -, -⟩ := sampleObjects_row
  have hnow : sampleObjects.base.clock ≤ 1000 := le_rfl
  have hrun := runs_updateKeyMetadata_refused (describe tooLong) (describe_id tooLong) hnow
    (sampleObjects_miss 1000) hrow checkDescription_tooLong
  refine ⟨_, _, hrun, ((failedUpdate_leavesReads sampleService sampleKMS noRoles
    sampleObjects_reachable).1 _).mpr ?_ _ _ hrun⟩
  rintro ⟨_, _, description, -, -, hok⟩
  rw [checkDescription_tooLong] at hok
  cases hok

/-- **A description that was never stored is read.**  The database fails at the write of an update,
or of a batch with one item, and the answers of reads are other than before. -/
theorem failedUpdate_showsEdit :
    (∃ e w', Act.Runs (updateSem sampleService.uuid) (Objects.updateKeyMetadata sampleService
      (describe "new")) sampleObjects (.error e) w' ∧
      ¬ LeavesReads sampleService sampleKMS noRoles sampleObjects w') ∧
    ∃ e w', Act.Runs (updateSem sampleService.uuid) (Objects.batchUpdateKeyMetadata sampleService
      (describeBatch "new")) sampleObjects (.error e) w' ∧
      ¬ LeavesReads sampleService sampleKMS noRoles sampleObjects w' := by
  have hsane := sampleObjects_reachable.sane
  obtain ⟨row, m, hrow, hm, hupdated⟩ := sampleObjects_row
  have hd : KeyService.checkDescription (describe "new").item = .ok (some "new") := by decide
  have hnow : sampleObjects.base.clock ≤ 2000 := by decide
  have hlater : ∀ w' : ObjectWorld, w'.base.clock = 2000 → m.updatedAt ≠ some w'.base.clock := by
    intro w' hclock
    rw [hupdated, hclock]
    decide
  constructor
  · obtain ⟨e, w', hrun, hmarked, hclock⟩ := exists_marked_updateKeyMetadata hsane
      (describe_id "new") hrow hm hd hnow (sampleObjects_miss 2000)
    exact ⟨e, w', hrun, hmarked.not_leavesReads (describe_id "new") (sampleObjects_miss _) hrow hm
      (hlater w' hclock)⟩
  · have hkeys : (describeBatch "new").keys = [(describe "new").item] := rfl
    obtain ⟨e, w', hrun, hmarked, hclock⟩ := exists_marked_batchUpdateKeyMetadata
      hsane rfl rfl hkeys (describe_id "new") hrow hm hd hnow (sampleObjects_miss 2000)
    exact ⟨e, w', hrun, hmarked.not_leavesReads (describe_id "new") (sampleObjects_miss _) hrow hm
      (hlater w' hclock)⟩

end Polykey
