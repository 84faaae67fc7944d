/-
# The versions that a rotation response names

A response has the version before the rotation and the version after it.  The new version comes out
of the transaction that rotates.  The previous one does not: it is the version of a key that was
read in ANOTHER repository call, before, and nothing ties the two calls together.  What is committed
in between is missing from the response.

The machine of this module has both ways to rotate: the pipeline of `Pipelines/KeyRotation`, and the
goroutines of `BatchRotateKeys`, one for each item.  It keeps a log of the rotations that took
effect, with the version that was the latest before each of them; no step looks at the log.

* In a run where a rotation takes effect only while no other one has the current key of the same id
  in hand, and where the pipeline accepts requests only when it is idle, every response names the
  two versions of a logged rotation of its key (`rotation_consecutive`).
* One batch that has a key twice is enough to break that (`rotation_skips_version`).
-/
import Polykey.Pipelines.KeyRotation

namespace Polykey

open Lib

/-! ## 1. The goroutines of a batch rotation -/

/-- `processRotation` after it has read the current key. -/
def KeyService.rotateFrom (s : KeyService) (keyID : KeyID) (currentKey : Key) : Svc Key := do
  let provider ← Act.ofExcept (s.getKMSProvider (Key.storageType currentKey))
  let size ← Act.ofExcept (dekPool (Key.keyType currentKey))
  let newDEK ← Act.mapError (Err.wrap "failed to generate new DEK: ") (randRead size)
  let encryptedNewDEK ← Act.mapError (Err.wrap "failed to encrypt new DEK: ")
    (encryptDEK provider newDEK currentKey)
  Act.mapError (Err.wrap "failed to rotate key: ") (repo (.rotateKey keyID encryptedNewDEK))

/-- Where a goroutine stands. -/
inductive ItemPhase
  | reading (id : KeyID)
  /-- it has read the current key, and this is left of `processRotation` -/
  | holding (id : KeyID) (currentKey : Key) (todo : Prog Effect (Except Err Key))
  | returned (out : Except Err RotateKeyResponse)

structure BatchRotation where
  item : RotateKeyItem
  phase : ItemPhase

/-- An item whose id does not parse is never processed. -/
def BatchRotation.start (s : KeyService) (item : RotateKeyItem) : BatchRotation :=
  match keyIDFromString s.uuid item.keyId with
  | .error e => ⟨item, .returned (.error e)⟩
  | .ok id => ⟨item, .reading id⟩

/-- The goroutine goes on with what `GetKey` has answered. -/
def ItemPhase.afterRead (s : KeyService) (id : KeyID) : Except Err Key → ItemPhase
  | .error e => .returned (.error (e.wrap "failed to get current key: "))
  | .ok currentKey => .holding id currentKey (s.rotateFrom id currentKey)

/-- **`Process` is what the phases of a goroutine say**: read, rotate, take the time. -/
theorem rotateItem_eq (s : KeyService) (item : RotateKeyItem) :
    s.rotateItem item = (do
      let keyID ← Act.ofExcept (keyIDFromString s.uuid item.keyId)
      let currentKey ← Act.mapError (Err.wrap "failed to get current key: ")
        (repo (.getKey keyID))
      let rotatedKey ← s.rotateFrom keyID currentKey
      let now ← Act.call (I := Effect) .timeNow
      pure (KeyService.rotationResponse item currentKey rotatedKey now)) := by
  unfold KeyService.rotateItem KeyService.processRotation KeyService.rotateFrom
  simp only [Act.bind_assoc]
  rfl

/-! ## 2. The machine -/

/-- A rotation that took effect: of which key, the latest version before it, and the key that the
repository returned. -/
structure TookEffect where
  id : KeyID
  previous : Option Int
  key : Key

structure RotationState where
  pipeline : PipelineState
  items : List BatchRotation
  log : List TookEffect

/-- Who rotates: a caller of `RotateKey`, by its ticket, or an item of a batch. -/
inductive Rotator
  | caller (ticket : Nat)
  | item (j : Nat)

namespace RotationState

def start (w : World) : RotationState := ⟨.start w, [], []⟩

abbrev world (st : RotationState) : World := st.pipeline.world

abbrev table (st : RotationState) : Table := st.world.table

def setItem (st : RotationState) (w : World) (j : Nat) (item : RotateKeyItem) (phase : ItemPhase) :
    RotationState :=
  { st with pipeline := { st.pipeline with world := w }, items := st.items.set j ⟨item, phase⟩ }

/-- The log after a rotation has taken effect. -/
def logged (st : RotationState) (id : KeyID) (key : Key) : List TookEffect :=
  st.log ++ [⟨id, st.table.maxVersion id, key⟩]

end RotationState

/-- Does the call rotate a key? -/
def EffectOp.rotates : EffectOp → Bool
  | repo (.rotateKey _ _) => true
  | _ => false

/-- One step.  `accepts` is asked of the state in which the pipeline accepts a request, `commits` of
the state in which a rotation takes effect, of who rotates and of the key. -/
inductive RotationStep (s : KeyService) (kms : KMS) (accepts : PipelineState → Prop)
    (commits : RotationState → Rotator → KeyID → Prop) : RotationState → RotationState → Prop
  /-- the pipeline, as long as it leaves the table alone -/
  | pipeline {st : RotationState} {p : PipelineState}
    (hstep : PipelineStep s kms accepts st.pipeline p) (htable : p.world.table = st.table) :
    RotationStep s kms accepts commits st { st with pipeline := p }
  /-- the rotation of a worker takes effect -/
  | workerRotates {st : RotationState} {pre post : List Worker} {ticket : Nat}
    {req : KeyRotationRequest} {id : KeyID} {dek : Bytes}
    {k : Except Err Key → Prog Effect (Except Err Key)} {key : Key} {w' : World}
    (hworkers : st.pipeline.workers =
      pre ++ ⟨ticket, req, .call (.repo (.rotateKey id dek)) k⟩ :: post)
    (hcommits : commits st (.caller ticket) id)
    (hop : worldSem s.uuid kms (.repo (.rotateKey id dek)) st.world (.ok key) w') :
    RotationStep s kms accepts commits st
      { st with
        pipeline := { st.pipeline with
          world := w'
          workers := pre ++ ⟨ticket, req, k (.ok key)⟩ :: post }
        log := st.logged id key }
  /-- a call of `BatchRotateKeys` starts the goroutines of its items -/
  | batch {st : RotationState} (req : BatchRotateKeysRequest)
    (hidentity : hasIdentity req.requesterContext = true) :
    RotationStep s kms accepts commits st
      { st with items := st.items ++ req.keys.map (BatchRotation.start s) }
  | read {st : RotationState} {j : Nat} {item : RotateKeyItem} {id : KeyID} {r : Except Err Key}
    {w' : World} (hitem : st.items[j]? = some ⟨item, .reading id⟩)
    (hop : worldSem s.uuid kms (.repo (.getKey id)) st.world r w') :
    RotationStep s kms accepts commits st (st.setItem w' j item (.afterRead s id r))
  | work {st : RotationState} {j : Nat} {item : RotateKeyItem} {id : KeyID} {currentKey : Key}
    {op : EffectOp} {k : op.Res → Prog Effect (Except Err Key)} {r : op.Res} {w' : World}
    (hitem : st.items[j]? = some ⟨item, .holding id currentKey (.call op k)⟩)
    (hop : worldSem s.uuid kms op st.world r w') (htable : w'.table = st.table) :
    RotationStep s kms accepts commits st (st.setItem w' j item (.holding id currentKey (k r)))
  /-- the rotation of an item takes effect -/
  | itemRotates {st : RotationState} {j : Nat} {item : RotateKeyItem} {id id' : KeyID}
    {currentKey : Key} {dek : Bytes} {k : Except Err Key → Prog Effect (Except Err Key)}
    {key : Key} {w' : World}
    (hitem : st.items[j]? =
      some ⟨item, .holding id currentKey (.call (.repo (.rotateKey id' dek)) k)⟩)
    (hcommits : commits st (.item j) id')
    (hop : worldSem s.uuid kms (.repo (.rotateKey id' dek)) st.world (.ok key) w') :
    RotationStep s kms accepts commits st
      { st.setItem w' j item (.holding id currentKey (k (.ok key))) with log := st.logged id' key }
  | fail {st : RotationState} {j : Nat} {item : RotateKeyItem} {id : KeyID} {currentKey : Key}
    {e : Err} (hitem : st.items[j]? = some ⟨item, .holding id currentKey (.ret (.error e))⟩) :
    RotationStep s kms accepts commits st
      (st.setItem st.world j item (.returned (.error e)))
  | answer {st : RotationState} {j : Nat} {item : RotateKeyItem} {id : KeyID} {currentKey key : Key}
    {now : Time} {w' : World}
    (hitem : st.items[j]? = some ⟨item, .holding id currentKey (.ret (.ok key))⟩)
    (hop : worldSem s.uuid kms .timeNow st.world now w') :
    RotationStep s kms accepts commits st (st.setItem w' j item
      (.returned (.ok (KeyService.rotationResponse item currentKey key now))))
  /-- another method of the service makes a call, sound as theirs are -/
  | elsewhere {st : RotationState} {op : EffectOp} {r : op.Res} {w' : World}
    (hchannels : op.usesChannels = false) (hrotates : op.rotates = false)
    (hsound : SoundCall s.uuid op st.world) (hop : worldSem s.uuid kms op st.world r w') :
    RotationStep s kms accepts commits st
      { st with pipeline := { st.pipeline with world := w' } }

/-- The state has given a successful response. -/
def RotationState.Responds (st : RotationState) (resp : RotateKeyResponse) : Prop :=
  (∃ c ∈ st.pipeline.callers, ∃ currentKey req ticket result key now,
    c.phase = .received currentKey req ticket result ∧ result.rotatedKey = .ok key ∧
      resp = KeyService.rotationResponse c.item currentKey key now) ∨
  ∃ g ∈ st.items, g.phase = .returned (.ok resp)

/-- The response is that of a rotation that took effect on the key it names: it carries the key of
that rotation, and its two versions are the latest one before the rotation and the next. -/
def Consecutive (s : KeyService) (log : List TookEffect) (resp : RotateKeyResponse) : Prop :=
  ∃ e ∈ log, keyIDFromString s.uuid resp.keyId = .ok e.id ∧
    e.previous = some resp.previousVersion ∧ resp.newVersion = resp.previousVersion + 1 ∧
    resp.newVersion = e.key.version ∧
    resp.newKeyMaterial.encryptedKeyData = e.key.encryptedDEK ∧ resp.metadata = e.key.metadata

/-! ## 3. Who has read a key -/

/-- The key whose current version the caller has read and not yet got a result for. -/
def Caller.holds (c : Caller) : Option KeyID :=
  match c.phase with
  | .preparing (.ret (.ok (_, req))) | .waiting _ req => some req.keyID
  | _ => none

/-- The key whose current version the goroutine has read and not yet rotated. -/
def BatchRotation.holds (g : BatchRotation) : Option KeyID :=
  match g.phase with
  | .holding id _ (.call _ _) => some id
  | _ => none

/-- The condition on a rotation: nobody else has the current key of the same id in hand. -/
def Unread (st : RotationState) (who : Rotator) (id : KeyID) : Prop :=
  (∀ (i : Nat) (c : Caller), st.pipeline.callers[i]? = some c → c.holds = some id →
    who = .caller i) ∧
  ∀ (j : Nat) (g : BatchRotation), st.items[j]? = some g → g.holds = some id → who = .item j

/-! ## 4. What the programs do -/

/-- The program ends with an error, or with the answer of the one rotation it makes. -/
inductive Rotates (id : KeyID) : Prog Effect (Except Err Key) → Prop
  | failed (e : Err) : Rotates id (.ret (.error e))
  | still {op : EffectOp} {k : op.Res → Prog Effect (Except Err Key)}
    (hchannels : op.usesChannels = false) (hrotates : op.rotates = false)
    (hrest : ∀ r, Rotates id (k r)) : Rotates id (.call op k)
  | rotate {dek : Bytes} {k : Except Err Key → Prog Effect (Except Err Key)}
    (hok : ∀ key, k (.ok key) = .ret (.ok key))
    (herror : ∀ e, ∃ e', k (.error e) = .ret (.error e')) :
    Rotates id (.call (.repo (.rotateKey id dek)) k)

section Programs

variable {s : KeyService} {uuid : UUIDPkg} {kms : KMS} {id : KeyID} {w w' : World}

/-- A call before the rotation. -/
theorem Rotates.tryCall_bind {α : Type} {op : EffectOp} {k : op.Res → Except Err α}
    {wrap : Err → Err} {f : α → Svc Key} (hchannels : op.usesChannels = false)
    (hrotates : op.rotates = false) (hf : ∀ a, Rotates id (f a)) :
    Rotates id (Act.mapError wrap (Act.tryCall (I := Effect) op k) >>= f : Svc Key) := by
  refine .still hchannels hrotates fun r => ?_
  change Rotates id (Prog.bind (Prog.ret ((k r).mapError wrap)) _)
  cases k r with
  | ok a => exact hf a
  | error e => exact .failed _

theorem Rotates.ofExcept_bind {α : Type} {x : Except Err α} {f : α → Svc Key}
    (hf : ∀ a, Rotates id (f a)) : Rotates id (Act.ofExcept x >>= f : Svc Key) := by
  cases x with
  | ok a => exact hf a
  | error e => exact .failed _

theorem rotates_repo (id : KeyID) (dek : Bytes) (wrap : Err → Err) :
    Rotates id (Act.mapError wrap (repo (.rotateKey id dek))) :=
  .rotate (fun _ => rfl) fun e => ⟨wrap e, rfl⟩

theorem rotates_pipelineRotation (req : KeyRotationRequest) :
    Rotates req.keyID (KeyService.pipelineRotation req) :=
  .tryCall_bind rfl rfl fun _ => .tryCall_bind rfl rfl fun _ => .tryCall_bind rfl rfl fun _ =>
    rotates_repo _ _ _

theorem rotates_rotateFrom (id : KeyID) (currentKey : Key) :
    Rotates id (s.rotateFrom id currentKey) :=
  .ofExcept_bind fun _ => .ofExcept_bind fun _ => .tryCall_bind rfl rfl fun _ =>
    .tryCall_bind rfl rfl fun _ => rotates_repo _ _ _

/-- What the first half of a single rotation is after its read. -/
def Read (id : KeyID) (currentKey : Key) (p : Svc (Key × KeyRotationRequest)) : Prop :=
  (∃ e, p = .ret (.error e)) ∨ ∃ req, p = .ret (.ok (currentKey, req)) ∧ req.keyID = id

/-- The first half of a single rotation: one read, and the request for the key it has read. -/
theorem rotationRequest_cases (item : RotateKeyItem) :
    (∃ e, s.rotationRequest item = Prog.ret (.error e)) ∨
      ∃ (id : KeyID) (k : Except Err Key → Svc (Key × KeyRotationRequest)),
        s.rotationRequest item = Prog.call (I := Effect) (.repo (.getKey id)) k ∧
        (∀ e, ∃ e', k (.error e) = Prog.ret (.error e')) ∧
        ∀ currentKey, Read id currentKey (k (.ok currentKey)) := by
  unfold KeyService.rotationRequest
  cases keyIDFromString s.uuid item.keyId with
  | error e => exact .inl ⟨e, rfl⟩
  | ok id =>
    refine .inr ⟨id, _, rfl, fun e => ⟨_, rfl⟩, fun currentKey => ?_⟩
    change Read id currentKey (Act.ofExcept (s.getKMSProvider (Key.storageType currentKey)) >>= _)
    cases s.getKMSProvider (Key.storageType currentKey) with
    | error e => exact .inl ⟨e, rfl⟩
    | ok provider =>
      change Read id currentKey (Act.ofExcept (dekPool (Key.keyType currentKey)) >>= _)
      cases dekPool (Key.keyType currentKey) with
      | error e => exact .inl ⟨e, rfl⟩
      | ok size => exact .inr ⟨_, rfl, rfl⟩

theorem maxVersion_congr {t t' : Table} (h : t'.versionsOf id = t.versionsOf id) :
    t'.maxVersion id = t.maxVersion id := by
  rw [Table.maxVersion, Table.maxVersion, Table.latest, Table.latest, h]

theorem maxVersion_mapRows {t : Table} {f : Row → Row} {hf : ∀ r, (f r).key = r.key} :
    (t.mapRows f hf).maxVersion id = t.maxVersion id := by
  rw [Table.maxVersion, Table.latest_mapRows, Table.maxVersion]
  cases t.latest id with
  | none => rfl
  | some r => exact congrArg some (Table.mapRows_version hf r)

/-- What a read returns is the latest row. -/
theorem worldSem_getKey {r : Except Err Key}
    (hop : worldSem uuid kms (.repo (.getKey id)) w r w') :
    w'.table = w.table ∧
      ∀ key, r = .ok key → w.table.maxVersion id = some key.version := by
  obtain ⟨now, -, t', hans, rfl⟩ := hop
  refine ⟨?_, ?_⟩
  · rcases hans with hexec | ⟨-, rfl⟩
    · exact (Prod.mk.inj hexec).2.symm
    · rfl
  · rintro key rfl
    obtain ⟨-, row, hrow, rfl⟩ := answers_getKey hans
    rw [Table.maxVersion, hrow]
    rfl

/-- **What a rotation does**: it adds one to the latest version of its key, and no other key is
touched. -/
theorem worldSem_rotateKey {dek : Bytes} {key : Key} (hchain : Chain uuid w.table)
    (hop : worldSem uuid kms (.repo (.rotateKey id dek)) w (.ok key) w') :
    (∃ v, w.table.maxVersion id = some v ∧ key.version = v + 1) ∧ Chain uuid w'.table ∧
      w'.table ≠ w.table ∧
      ∀ other, other ≠ id → w'.table.maxVersion other = w.table.maxVersion other := by
  obtain ⟨now, -, t', hans, rfl⟩ := hop
  have hsound : Sound uuid (.rotateKey id dek) w.table := .of_nil rfl rfl
  have hexec : PSQLAdapter.rotateKey uuid now w.table id dek = (.ok key, t') := by
    rcases hans with hexec | ⟨⟨e, he⟩, -⟩
    · exact hexec
    · cases he
  obtain ⟨old, m, hrot, rfl⟩ := PSQLAdapter.rotateKey_eq_ok.mp hexec
  refine ⟨⟨old.version, ?_, ?_⟩, (hans.change.chain hsound hchain).1, fun heq => ?_,
    fun other hne => ?_⟩
  · rw [Table.maxVersion, hrot.latest]
    rfl
  · change m.version + 1 = _
    rw [hchain.rotation_version hrot]
  · have hlength := congrArg List.length (hrot.rows.symm.trans (congrArg Table.rows heq))
    simp [Table.markRotated, Table.mapRows] at hlength
  · exact maxVersion_congr (hans.change.versionsOf (by simpa [RepoOp.touched] using hne))

theorem maxVersion_updateEach {now : Time} {t : Table}
    (updates : List (KeyID × Option KeyMetadata)) :
    (PSQLAdapter.updateEach now t updates).maxVersion id = t.maxVersion id := by
  induction updates generalizing t with
  | nil => rfl
  | cons u us ih => exact ih.trans maxVersion_mapRows

/-- No other call changes the latest version of a key that is there. -/
theorem maxVersion_of_change {op : RepoOp} {now : Time} {t t' : Table} (hchain : Chain uuid t)
    (hsound : Sound uuid op t) (hchange : PSQLAdapter.Change now op t t') (hop : op.rotated = [])
    {v : Int} (hv : t.maxVersion id = some v) : t'.maxVersion id = some v := by
  cases hchange with
  | same => exact hv
  | create hins =>
    -- a new row has a new id
    obtain ⟨n, hn, -⟩ := Option.map_eq_some_iff.mp hv
    obtain ⟨hmem, hid, -⟩ := Table.latest_eq_some.mp hn
    have hnew : (op.created.map Row.ofKey).filter (fun r => decide (r.id = id)) = [] := by
      refine List.filter_eq_nil_iff.mpr fun r hr => ?_
      obtain ⟨k, hk, rfl⟩ := List.mem_map.mp hr
      have hne := hchain.fresh_id hsound.created hins hk n hmem
      rw [hid] at hne
      simp [Row.ofKey, hne.symm]
    rw [← hv]
    refine maxVersion_congr ?_
    rw [Table.versionsOf, Table.insert_eq_some hins, List.filter_append, hnew, List.append_nil]
    rfl
  | update _ => exact (maxVersion_updateEach _).trans hv
  | revoke => exact maxVersion_mapRows.trans hv
  | rotate _ => cases hop

/-- A sound call of another method. -/
theorem elsewhere_keeps {op : EffectOp} {r : op.Res} (hchain : Chain uuid w.table)
    (hrotates : op.rotates = false) (hsound : SoundCall uuid op w)
    (hop : worldSem uuid kms op w r w') :
    Chain uuid w'.table ∧ ∀ id v, w.table.maxVersion id = some v →
      w'.table.maxVersion id = some v := by
  cases hrepo : op.isRepo with
  | false =>
    rw [worldSem_table hop hrepo]
    exact ⟨hchain, fun _ _ hv => hv⟩
  | true =>
    cases op with
    | repo rop =>
      have hquiet : rop.rotated = [] := by
        cases rop with
        | rotateKey _ _ => cases hrotates
        | _ => rfl
      obtain ⟨now, -, t', hans, rfl⟩ := hop
      refine ⟨(hans.change.chain (hsound rop rfl) hchain).1, fun id v hv => ?_⟩
      exact maxVersion_of_change hchain (hsound rop rfl) hans.change hquiet hv
    | _ => cases hrepo

end Programs

/-! ## 5. What everybody has in hand is the latest version

A rotation that has read a key and not rotated yet holds the latest version, as long as nobody
else rotates the key in between. The condition on the run is that nobody does. -/

/-- Of a program that rotates, and the key that was read before: until the rotation the key is the
latest version, and what the program returns is a rotation of it. -/
def InHand (t : Table) (log : List TookEffect) (id : KeyID) (currentKey : Key) :
    Prog Effect (Except Err Key) → Prop
  | .call op k => Rotates id (.call op k) ∧ t.maxVersion id = some currentKey.version
  | .ret (.ok key) => ⟨id, some currentKey.version, key⟩ ∈ log
  | .ret (.error _) => True

/-- The same of a request with a ticket, wherever it is in the pipeline. -/
structure Pending (p : PipelineState) (log : List TookEffect) (ticket : Nat) (id : KeyID)
    (currentKey : Key) : Prop where
  queued : ticket ∈ p.queued → p.world.table.maxVersion id = some currentKey.version
  working : ∀ wk ∈ p.workers, wk.ticket = ticket →
    InHand p.world.table log id currentKey wk.todo
  answered : ∀ result, (result, ticket) ∈ p.world.results.zip p.answered →
    ∀ key, result.rotatedKey = .ok key → ⟨id, some currentKey.version, key⟩ ∈ log

/-- What is left of the first half of `RotateKey`: all of it, or its result. -/
def PreparesRequest (s : KeyService) (item : RotateKeyItem) (t : Table)
    (todo : Svc (Key × KeyRotationRequest)) : Prop :=
  todo = s.rotationRequest item ∨ (∃ e, todo = Prog.ret (.error e)) ∨
    ∃ currentKey req, todo = Prog.ret (.ok (currentKey, req)) ∧
      t.maxVersion req.keyID = some currentKey.version

def Caller.Sees (s : KeyService) (p : PipelineState) (log : List TookEffect) (i : Nat)
    (c : Caller) : Prop :=
  match c.phase with
  | .preparing todo => PreparesRequest s c.item p.world.table todo
  | .waiting currentKey req => Pending p log i req.keyID currentKey
  | .received currentKey req _ result =>
    ∀ key, result.rotatedKey = .ok key → ⟨req.keyID, some currentKey.version, key⟩ ∈ log
  | .refused | .cancelled _ => True

def BatchRotation.Sees (s : KeyService) (t : Table) (log : List TookEffect) (g : BatchRotation) :
    Prop :=
  match g.phase with
  | .reading id => keyIDFromString s.uuid g.item.keyId = .ok id
  | .holding id currentKey todo =>
    keyIDFromString s.uuid g.item.keyId = .ok id ∧ InHand t log id currentKey todo
  | .returned out => ∀ resp, out = .ok resp → Consecutive s log resp

structure Consistent (s : KeyService) (kms : KMS) (st : RotationState) : Prop where
  chain : Chain s.uuid st.table
  traced : Traced s kms st.pipeline
  exclusive : Exclusive st.pipeline
  log : ∀ e ∈ st.log, ∃ v, e.previous = some v ∧ e.key.version = v + 1
  callers : ∀ (i : Nat) (c : Caller), st.pipeline.callers[i]? = some c →
    c.Sees s st.pipeline st.log i
  items : ∀ (j : Nat) (g : BatchRotation), st.items[j]? = some g → g.Sees s st.table st.log

section Sees

variable {s : KeyService} {kms : KMS} {t t' : Table} {log log' : List TookEffect} {id : KeyID}
  {currentKey : Key} {todo : Prog Effect (Except Err Key)} {w w' : World} {p p' : PipelineState}

theorem InHand.of_rotates (h : Rotates id todo)
    (hversion : t.maxVersion id = some currentKey.version) : InHand t log id currentKey todo := by
  cases h with
  | failed e => trivial
  | still hchannels hrotates hrest => exact ⟨.still hchannels hrotates hrest, hversion⟩
  | rotate hok herror => exact ⟨.rotate hok herror, hversion⟩

/-- The table moves on, and the latest version of a key that is still in hand stays. -/
theorem InHand.mono (h : InHand t log id currentKey todo) (hlog : ∀ e ∈ log, e ∈ log')
    (hversion : ∀ op k, todo = .call op k → ∀ v, t.maxVersion id = some v →
      t'.maxVersion id = some v) : InHand t' log' id currentKey todo := by
  cases todo with
  | call op k => exact ⟨h.1, hversion op k rfl _ h.2⟩
  | ret out =>
    cases out with
    | ok key => exact hlog _ h
    | error e => trivial

/-- A call that changes nothing. -/
theorem InHand.call {op : EffectOp} {k : op.Res → Prog Effect (Except Err Key)} {r : op.Res}
    (h : InHand w.table log id currentKey (.call op k)) (hchain : Chain s.uuid w.table)
    (hop : worldSem s.uuid kms op w r w') (htable : w'.table = w.table) :
    InHand w.table log id currentKey (k r) ∧ op.usesChannels = false := by
  obtain ⟨hrotates, hversion⟩ := h
  cases hrotates with
  | still hchannels hrotates hrest => exact ⟨.of_rotates (hrest r) hversion, hchannels⟩
  | rotate hok herror =>
    refine ⟨?_, rfl⟩
    cases r with
    | ok key => exact absurd htable (worldSem_rotateKey hchain hop).2.2.1
    | error e =>
      obtain ⟨e', he'⟩ := herror e
      rw [he']
      trivial

/-- The rotation. -/
theorem InHand.rotate {id' : KeyID} {dek : Bytes}
    {k : Except Err Key → Prog Effect (Except Err Key)}
    (h : InHand t log id currentKey (.call (.repo (.rotateKey id' dek)) k)) (key : Key) :
    id' = id ∧ InHand t' (log ++ [⟨id', t.maxVersion id', key⟩]) id currentKey (k (.ok key)) := by
  obtain ⟨hrotates, hversion⟩ := h
  cases hrotates with
  | still hchannels hrotates hrest => cases hrotates
  | rotate hok herror =>
    refine ⟨rfl, ?_⟩
    rw [hok, hversion]
    exact List.mem_append_right _ (List.mem_singleton_self _)

/-- The response of a logged rotation. -/
theorem consecutive_response {item : RotateKeyItem} {key : Key} {now : Time}
    (hlog : ∀ e ∈ log, ∃ v, e.previous = some v ∧ e.key.version = v + 1)
    (hid : keyIDFromString s.uuid item.keyId = .ok id)
    (hmem : ⟨id, some currentKey.version, key⟩ ∈ log) :
    Consecutive s log (KeyService.rotationResponse item currentKey key now) := by
  obtain ⟨v, hv, hkey⟩ := hlog _ hmem
  cases hv
  exact ⟨_, hmem, hid, rfl, hkey, rfl, rfl, rfl⟩

theorem Consecutive.mono {resp : RotateKeyResponse} (h : Consecutive s log resp)
    (hlog : ∀ e ∈ log, e ∈ log') : Consecutive s log' resp := by
  obtain ⟨e, he, hrest⟩ := h
  exact ⟨e, hlog e he, hrest⟩

theorem BatchRotation.Sees.mono {g : BatchRotation} (h : g.Sees s t log)
    (hlog : ∀ e ∈ log, e ∈ log')
    (hversion : ∀ id, g.holds = some id → ∀ v, t.maxVersion id = some v →
      t'.maxVersion id = some v) : g.Sees s t' log' := by
  obtain ⟨item, phase⟩ := g
  cases phase with
  | reading id => exact h
  | holding id currentKey todo =>
    refine ⟨h.1, h.2.mono hlog ?_⟩
    rintro op k rfl
    exact hversion id rfl
  | returned out => exact fun resp hresp => (h resp hresp).mono hlog

/-- The world moves on, and the pipeline stays as it is. -/
theorem Caller.Sees.mono {c : Caller} {i : Nat} (h : c.Sees s p log i)
    (hresults : w'.results = p.world.results) (hlog : ∀ e ∈ log, e ∈ log')
    (hversion : ∀ id, c.holds = some id → ∀ v, p.world.table.maxVersion id = some v →
      w'.table.maxVersion id = some v) : c.Sees s { p with world := w' } log' i := by
  obtain ⟨item, phase⟩ := c
  cases phase with
  | preparing todo =>
    rcases h with hall | hfailed | ⟨currentKey, req, rfl, hlatest⟩
    · exact .inl hall
    · exact .inr (.inl hfailed)
    · exact .inr (.inr ⟨currentKey, req, rfl, hversion _ rfl _ hlatest⟩)
  | waiting currentKey req =>
    refine ⟨fun hqueued => hversion _ rfl _ (h.queued hqueued), fun wk hwk hticket => ?_,
      fun result hresult key hkey => ?_⟩
    · exact (h.working wk hwk hticket).mono hlog fun _ _ _ => hversion _ rfl
    · change (result, i) ∈ w'.results.zip p.answered at hresult
      rw [hresults] at hresult
      exact hlog _ (h.answered result hresult key hkey)
  | received currentKey req ticket result => exact fun key hkey => hlog _ (h key hkey)
  | refused => trivial
  | cancelled req => trivial

/-- The first half of `RotateKey` makes its read. -/
theorem PreparesRequest.call {item : RotateKeyItem} {op : EffectOp}
    {k : op.Res → Prog Effect (Except Err (Key × KeyRotationRequest))} {r : op.Res}
    (h : PreparesRequest s item t (Prog.call op k)) (hop : worldSem s.uuid kms op w r w') :
    PreparesRequest s item w'.table (k r) := by
  rcases h with hall | ⟨e, he⟩ | ⟨_, _, hread, -⟩
  · rcases rotationRequest_cases (s := s) item with ⟨e, he⟩ | ⟨id, k₀, hk₀, herror, hread⟩
    · cases hall.trans he
    · cases hall.trans hk₀
      cases r with
      | error e => exact .inr (.inl (herror e))
      | ok currentKey =>
        obtain ⟨htable, hlatest⟩ := worldSem_getKey hop
        rcases hread currentKey with hfailed | ⟨req, hreq, rfl⟩
        · exact .inr (.inl hfailed)
        · exact .inr (.inr ⟨currentKey, req, hreq, htable ▸ hlatest _ rfl⟩)
  · cases he
  · cases hread

/-- The request that comes out is for the version that is the latest. -/
theorem PreparesRequest.latest {item : RotateKeyItem} {currentKey : Key} {req : KeyRotationRequest}
    (h : PreparesRequest s item t (Prog.ret (.ok (currentKey, req)))) :
    t.maxVersion req.keyID = some currentKey.version := by
  rcases h with hall | ⟨e, he⟩ | ⟨_, _, hread, hlatest⟩
  · rcases rotationRequest_cases (s := s) item with ⟨e, he⟩ | ⟨id, k, hk, -⟩
    · cases hall.trans he
    · cases hall.trans hk
  · cases he
  · cases hread
    exact hlatest

end Sees

/-! ## 6. The pipeline -/

section PipelineSteps

variable {s : KeyService} {kms : KMS} {log : List TookEffect} {p p' : PipelineState} {w' : World}

/-- When a worker has a request, there is no other. -/
theorem Exclusive.alone {pre post : List Worker} {wk : Worker} (h : Exclusive p)
    (hworkers : p.workers = pre ++ wk :: post) :
    p.queued = [] ∧ pre = [] ∧ post = [] ∧ p.answered = [] := by
  have hlen := h.single
  simp only [PipelineState.outstanding, hworkers, List.length_append, List.length_map,
    List.length_cons] at hlen
  refine ⟨?_, ?_, ?_, ?_⟩ <;> refine List.length_eq_zero_iff.mp ?_ <;> omega

/-- When a request is in the channel, there is no other. -/
theorem Exclusive.queued_alone {ticket : Nat} {rest : List Nat} (h : Exclusive p)
    (hqueued : p.queued = ticket :: rest) : rest = [] ∧ p.workers = [] ∧ p.answered = [] := by
  have hlen := h.single
  simp only [PipelineState.outstanding, hqueued, List.length_append, List.length_map,
    List.length_cons] at hlen
  refine ⟨?_, ?_, ?_⟩ <;> refine List.length_eq_zero_iff.mp ?_ <;> omega

/-- When a request has its result, there is no other. -/
theorem Exclusive.answered_alone {ticket : Nat} {rest : List Nat} (h : Exclusive p)
    (hanswered : p.answered = ticket :: rest) : p.queued = [] ∧ p.workers = [] ∧ rest = [] := by
  have hlen := h.single
  simp only [PipelineState.outstanding, hanswered, List.length_append, List.length_map,
    List.length_cons] at hlen
  refine ⟨?_, ?_, ?_⟩ <;> refine List.length_eq_zero_iff.mp ?_ <;> omega

/-- A caller stays in its phase while the pipeline moves on. -/
theorem Caller.Sees.stays {c : Caller} {i : Nat} (h : c.Sees s p log i)
    (htable : p'.world.table = p.world.table)
    (hpending : ∀ currentKey req, c.phase = .waiting currentKey req →
      Pending p log i req.keyID currentKey → Pending p' log i req.keyID currentKey) :
    c.Sees s p' log i := by
  obtain ⟨item, phase⟩ := c
  cases phase with
  | preparing todo =>
    change PreparesRequest s item p'.world.table todo
    rw [htable]
    exact h
  | waiting currentKey req => exact hpending currentKey req rfl h
  | received currentKey req ticket result => exact h
  | refused => trivial
  | cancelled req => trivial

/-- The same, when neither the channels nor the workers have changed. -/
theorem Caller.Sees.aside {c : Caller} {i : Nat} (h : c.Sees s p log i)
    (htable : p'.world.table = p.world.table) (hresults : p'.world.results = p.world.results)
    (hqueued : i ∈ p'.queued → i ∈ p.queued) (hworkers : p'.workers = p.workers)
    (hanswered : p'.answered = p.answered) : c.Sees s p' log i := by
  refine h.stays htable fun currentKey req _ hpending => ⟨fun hi => ?_, ?_, ?_⟩
  · rw [htable]
    exact hpending.queued (hqueued hi)
  · rw [htable, hworkers]
    exact hpending.working
  · rw [hresults, hanswered]
    exact hpending.answered

/-- A caller whose request is with a worker. -/
theorem Caller.Sees.atWorker {c : Caller} {i : Nat} {wk : Worker} (h : c.Sees s p log i)
    (htable : p'.world.table = p.world.table) (hqueued : p'.queued = [])
    (hworkers : p'.workers = [wk]) (hanswered : p'.answered = [])
    (hwork : ∀ currentKey req, c.phase = .waiting currentKey req → wk.ticket = i →
      Pending p log i req.keyID currentKey →
      InHand p.world.table log req.keyID currentKey wk.todo) : c.Sees s p' log i := by
  refine h.stays htable fun currentKey req hphase hpending => ⟨fun hi => ?_, fun wk' hwk' ht => ?_,
    fun result hresult => ?_⟩
  · rw [hqueued] at hi
    cases hi
  · rw [hworkers] at hwk'
    obtain rfl := List.mem_singleton.mp hwk'
    rw [htable]
    exact hwork currentKey req hphase ht hpending
  · rw [hanswered, List.zip_nil_right] at hresult
    cases hresult

/-- A caller whose request has been answered, if it is still there. -/
theorem Caller.Sees.atResults {c : Caller} {i : Nat} (h : c.Sees s p log i)
    (htable : p'.world.table = p.world.table) (hqueued : p'.queued = [])
    (hworkers : p'.workers = [])
    (hresults : ∀ currentKey req, c.phase = .waiting currentKey req →
      Pending p log i req.keyID currentKey → ∀ result,
      (result, i) ∈ p'.world.results.zip p'.answered → ∀ key, result.rotatedKey = .ok key →
      ⟨req.keyID, some currentKey.version, key⟩ ∈ log) : c.Sees s p' log i := by
  refine h.stays htable fun currentKey req hphase hpending => ⟨fun hi => ?_, fun wk' hwk' => ?_,
    hresults currentKey req hphase hpending⟩
  · rw [hqueued] at hi
    cases hi
  · rw [hworkers] at hwk'
    cases hwk'

/-! ### One lemma for each step that moves a request

The pipeline holds one request at most, so what a step moves is the request of one caller, and no
other caller waits. -/

variable {i j : Nat} {c : Caller} {item : RotateKeyItem} {currentKey : Key}
  {req : KeyRotationRequest} {ticket : Nat} {rest : List Nat}

/-- A caller other than the one whose phase is set is where it was, and has not moved. -/
theorem Caller.Sees.setPhase {phase : Phase}
    (h : ∀ (i : Nat) (c : Caller), p.callers[i]? = some c → c.Sees s p log i)
    (htable : w'.table = p.world.table) (hresults : w'.results = p.world.results)
    (hself : (Caller.mk item phase).Sees s (p.setPhase w' j item phase) log j)
    (hi : (p.setPhase w' j item phase).callers[i]? = some c) :
    c.Sees s (p.setPhase w' j item phase) log i := by
  rcases getElem?_set_cases hi with ⟨-, hi⟩ | ⟨rfl, rfl⟩
  · exact (h i c hi).aside htable hresults (fun hq => hq) rfl rfl
  · exact hself

theorem sees_accept (hexclusive : Exclusive p)
    (h : ∀ (i : Nat) (c : Caller), p.callers[i]? = some c → c.Sees s p log i)
    (hcaller : p.callers[j]? = some ⟨item, .preparing (.ret (.ok (currentKey, req)))⟩)
    (hidle : Idle p) (htable : w'.table = p.world.table)
    (hi : (p.setPhase w' j item (.waiting currentKey req)).callers[i]? = some c) :
    c.Sees s { p.setPhase w' j item (.waiting currentKey req) with queued := p.queued ++ [j] }
      log i := by
  obtain ⟨hqueued, hrest⟩ := List.append_eq_nil_iff.mp hidle
  obtain ⟨hworkers, hanswered⟩ := List.append_eq_nil_iff.mp hrest
  rcases getElem?_set_cases hi with ⟨hne, hi⟩ | ⟨rfl, rfl⟩
  · -- nobody else waits in an idle pipeline
    refine (h i c hi).stays htable fun currentKey' req' hphase _ => ?_
    have hown := hexclusive.own i c hi
    have hnone : p.outstanding = [] := hidle
    simp only [Caller.Own, hphase, hnone] at hown
    cases hown
  · refine ⟨fun _ => ?_, fun wk hwk => ?_, fun result hresult => ?_⟩
    · have hlatest := PreparesRequest.latest (h i _ hcaller)
      rw [← htable] at hlatest
      exact hlatest
    · change wk ∈ p.workers at hwk
      rw [List.map_eq_nil_iff.mp hworkers] at hwk
      cases hwk
    · change (result, i) ∈ w'.results.zip p.answered at hresult
      rw [hanswered, List.zip_nil_right] at hresult
      cases hresult

theorem sees_take (htraced : Traced s kms p) (hexclusive : Exclusive p)
    (h : ∀ (i : Nat) (c : Caller), p.callers[i]? = some c → c.Sees s p log i)
    (hqueued : p.queued = ticket :: rest) (hop : worldSem s.uuid kms .takeRequest p.world req w')
    (htable : w'.table = p.world.table) (hi : p.callers[i]? = some c) :
    c.Sees s { p with
      world := w'
      queued := rest
      workers := p.workers ++ [⟨ticket, req, KeyService.pipelineRotation req⟩] } log i := by
  obtain ⟨now, -, rest', hrequests, rfl⟩ := hop
  obtain ⟨hrest, hworkers, hanswered⟩ := hexclusive.queued_alone hqueued
  have hfirst := htraced.queued
  rw [hrequests, hqueued] at hfirst
  obtain ⟨hreq, -⟩ := List.forall₂_cons.mp hfirst
  have hnew : p.workers ++ [⟨ticket, req, KeyService.pipelineRotation req⟩] =
      [⟨ticket, req, KeyService.pipelineRotation req⟩] := by rw [hworkers, List.nil_append]
  refine (h i c hi).atWorker htable hrest hnew hanswered
    fun currentKey req' hphase hticket hpending => ?_
  -- the request taken is that of the caller who waits for it
  obtain rfl : ticket = i := hticket
  have hown : p.request ticket = some req' := by
    rw [PipelineState.request, hi, Option.bind_some, Caller.accepted, hphase]
  obtain rfl := Option.some.inj (hown.symm.trans hreq)
  exact .of_rotates (rotates_pipelineRotation req') (hpending.queued (by simp [hqueued]))

theorem sees_send {pre post : List Worker} {out : Except Err Key} (htraced : Traced s kms p)
    (hexclusive : Exclusive p)
    (h : ∀ (i : Nat) (c : Caller), p.callers[i]? = some c → c.Sees s p log i)
    (hworkers : p.workers = pre ++ ⟨ticket, req, .ret out⟩ :: post)
    (hop : worldSem s.uuid kms (.sendResult ⟨req.keyID, out⟩) p.world () w')
    (htable : w'.table = p.world.table) (hi : p.callers[i]? = some c) :
    c.Sees s { p with
      world := w', workers := pre ++ post, answered := p.answered ++ [ticket] } log i := by
  obtain ⟨now, -, -, rfl⟩ := hop
  obtain ⟨hqueued, rfl, rfl, hanswered⟩ := hexclusive.alone hworkers
  have hempty : p.world.results = [] := by
    have hlen := htraced.answered.length_eq
    rw [hanswered] at hlen
    exact List.length_eq_zero_iff.mp hlen
  refine (h i c hi).atResults htable hqueued rfl
    fun currentKey req' _ hpending result hresult key hkey => ?_
  simp only [hempty, hanswered, List.nil_append, List.zip_cons_cons, List.zip_nil_right,
    List.mem_singleton, Prod.mk.injEq] at hresult
  obtain ⟨rfl, rfl⟩ := hresult
  have hinHand := hpending.working ⟨i, req, .ret out⟩ (by simp [hworkers]) rfl
  obtain rfl : out = .ok key := hkey
  exact hinHand

theorem sees_receive {result : KeyRotationResult} (hexclusive : Exclusive p)
    (h : ∀ (i : Nat) (c : Caller), p.callers[i]? = some c → c.Sees s p log i)
    (hcaller : p.callers[j]? = some ⟨item, .waiting currentKey req⟩)
    (hanswered : p.answered = ticket :: rest)
    (hop : worldSem s.uuid kms .awaitResult p.world (some result) w')
    (htable : w'.table = p.world.table)
    (hi : (p.setPhase w' j item (.received currentKey req ticket result)).callers[i]? = some c) :
    c.Sees s { p.setPhase w' j item (.received currentKey req ticket result) with
      answered := rest } log i := by
  obtain ⟨now, -, ⟨result', rest', hresults, hsome, rfl⟩ | ⟨hnone, -⟩⟩ := hop
  · obtain ⟨hqueued, hworkers, hrest⟩ := hexclusive.answered_alone hanswered
    obtain rfl := Option.some.inj hsome
    rcases getElem?_set_cases hi with ⟨hne, hi⟩ | ⟨rfl, rfl⟩
    · refine (h i c hi).atResults htable hqueued hworkers fun _ _ _ _ result hresult => ?_
      change (result, i) ∈ rest'.zip rest at hresult
      rw [hrest, List.zip_nil_right] at hresult
      cases hresult
    · have hpending : Pending p log i req.keyID currentKey := h i _ hcaller
      have hown : i ∈ p.outstanding := hexclusive.own i _ hcaller
      simp only [PipelineState.outstanding, hqueued, hworkers, hanswered, hrest, List.map_nil,
        List.nil_append, List.mem_singleton] at hown
      refine hpending.answered result ?_
      rw [hresults, hanswered, hown]
      exact List.mem_cons_self
  · cases hnone

/-- **What one step of the pipeline keeps**, when it leaves the table alone. -/
theorem sees_pipelineStep (hchain : Chain s.uuid p.world.table) (htraced : Traced s kms p)
    (hexclusive : Exclusive p)
    (h : ∀ (i : Nat) (c : Caller), p.callers[i]? = some c → c.Sees s p log i)
    (hstep : PipelineStep s kms Idle p p') (htable : p'.world.table = p.world.table) :
    ∀ (i : Nat) (c : Caller), p'.callers[i]? = some c → c.Sees s p' log i := by
  intro i c hi
  cases hstep with
  | call item =>
    rcases Nat.lt_or_ge i p.callers.length with hlt | hge
    · have hold := h i c ((List.getElem?_append_left hlt).symm.trans hi)
      exact hold.aside rfl rfl (fun hq => hq) rfl rfl
    · change (p.callers ++ [_])[i]? = some c at hi
      rw [List.getElem?_append_right hge] at hi
      obtain rfl := List.mem_singleton.mp (List.mem_of_getElem? hi)
      exact .inl rfl
  | prepare hcaller hop =>
    obtain ⟨-, -, hresults⟩ :=
      Quiet.call (htraced.callers _ (List.mem_of_getElem? hcaller)).2 hop
    exact .setPhase h htable hresults ((h _ _ hcaller).call hop) hi
  | accept hcaller hidle hop => exact sees_accept hexclusive h hcaller hidle htable hi
  | refuse hcaller hop =>
    obtain ⟨now, -, hop⟩ := hop
    simp only [stepAt] at hop
    split at hop
    · cases hop.1
    · obtain ⟨-, rfl⟩ := hop
      exact .setPhase h htable rfl trivial hi
  | take hlt hqueued hop => exact sees_take htraced hexclusive h hqueued hop htable hi
  | work hworkers hop =>
    rename_i pre post ticket req op k r w'
    obtain ⟨hqueued, rfl, rfl, hanswered⟩ := hexclusive.alone hworkers
    have hnext : [] ++ [⟨ticket, req, k r⟩] = [(⟨ticket, req, k r⟩ : Worker)] := rfl
    refine (h i c hi).atWorker htable hqueued hnext hanswered
      fun currentKey req' _ hticket hpending => ?_
    have hinHand := hpending.working ⟨ticket, req, .call op k⟩ (by simp [hworkers]) hticket
    exact (hinHand.call hchain hop htable).1
  | send hworkers hop => exact sees_send htraced hexclusive h hworkers hop htable hi
  | receive hcaller hanswered hop =>
    exact sees_receive hexclusive h hcaller hanswered hop htable hi
  | cancel hcaller hop =>
    obtain ⟨now, -, ⟨res, rest', -, hsome, -⟩ | ⟨-, rfl⟩⟩ := hop
    · cases hsome
    · exact .setPhase h htable rfl trivial hi
  | other hrequests hresults =>
    exact (h i c hi).aside htable hresults (fun hq => hq) rfl rfl

end PipelineSteps

/-! ## 7. Whole runs -/

section Runs

variable {s : KeyService} {kms : KMS} {st st' : RotationState} {w' : World}

/-- The world moves on outside the pipeline. -/
theorem Consistent.moves {items : List BatchRotation} {log : List TookEffect}
    (h : Consistent s kms st) (hchain : Chain s.uuid w'.table)
    (hchannels : w'.requests = st.world.requests ∧ w'.results = st.world.results)
    (hlog : ∀ e ∈ log, e ∈ st.log ∨ ∃ v, e.previous = some v ∧ e.key.version = v + 1)
    (hmore : ∀ e ∈ st.log, e ∈ log)
    (hversion : ∀ (i : Nat) (c : Caller), st.pipeline.callers[i]? = some c → ∀ id,
      c.holds = some id → ∀ v, st.table.maxVersion id = some v → w'.table.maxVersion id = some v)
    (hitems : ∀ (j : Nat) (g : BatchRotation), items[j]? = some g → g.Sees s w'.table log) :
    Consistent s kms ⟨{ st.pipeline with world := w' }, items, log⟩ := by
  have hother : PipelineStep s kms Idle st.pipeline { st.pipeline with world := w' } :=
    .other hchannels.1 hchannels.2
  refine ⟨hchain, h.traced.step hother, h.exclusive.step hother, fun e he => ?_, fun i c hi => ?_,
    hitems⟩
  · rcases hlog e he with hold | hnew
    · exact h.log e hold
    · exact hnew
  · exact (h.callers i c hi).mono hchannels.2 hmore (hversion i c hi)

/-- A goroutine moves on and the table stays as it is. -/
theorem Consistent.setItem {j : Nat} {item : RotateKeyItem} {phase : ItemPhase}
    (h : Consistent s kms st) (htable : w'.table = st.table)
    (hchannels : w'.requests = st.world.requests ∧ w'.results = st.world.results)
    (hphase : (BatchRotation.mk item phase).Sees s st.table st.log) :
    Consistent s kms (st.setItem w' j item phase) := by
  refine h.moves (htable ▸ h.chain) hchannels (fun e he => .inl he) (fun _ he => he)
    (fun _ _ _ _ _ v hv => htable ▸ hv) fun j' g hg => ?_
  rw [htable]
  rcases getElem?_set_cases hg with ⟨-, hg⟩ | ⟨rfl, rfl⟩
  · exact h.items j' g hg
  · exact hphase

/-- A rotation goes to the end of the log. -/
theorem mem_logged {id : KeyID} {dek : Bytes} {key : Key} (hchain : Chain s.uuid st.table)
    (hop : worldSem s.uuid kms (.repo (.rotateKey id dek)) st.world (.ok key) w') :
    ∀ e ∈ st.logged id key, e ∈ st.log ∨ ∃ v, e.previous = some v ∧ e.key.version = v + 1 := by
  intro e he
  rcases List.mem_append.mp he with hold | hnew
  · exact .inl hold
  · obtain ⟨⟨v, hv, hkey⟩, -⟩ := worldSem_rotateKey hchain hop
    rw [List.mem_singleton.mp hnew]
    exact .inr ⟨v, hv, hkey⟩

/-- The rotation of an item takes effect. -/
theorem Consistent.itemRotates {j : Nat} {item : RotateKeyItem} {id id' : KeyID}
    {currentKey key : Key} {dek : Bytes} {k : Except Err Key → Prog Effect (Except Err Key)}
    (h : Consistent s kms st)
    (hitem : st.items[j]? =
      some ⟨item, .holding id currentKey (.call (.repo (.rotateKey id' dek)) k)⟩)
    (hunread : Unread st (.item j) id')
    (hop : worldSem s.uuid kms (.repo (.rotateKey id' dek)) st.world (.ok key) w') :
    Consistent s kms { st.setItem w' j item (.holding id currentKey (k (.ok key))) with
      log := st.logged id' key } := by
  obtain ⟨-, hchain, -, hframe⟩ := worldSem_rotateKey h.chain hop
  have hmore : ∀ e ∈ st.log, e ∈ st.logged id' key := fun e he => List.mem_append_left _ he
  refine h.moves hchain (worldSem_channels hop rfl) (mem_logged h.chain hop) hmore
    (fun i c hi id₁ hholds v hv => ?_) fun j' g hg => ?_
  · have hne : id₁ ≠ id' := by
      rintro rfl
      cases hunread.1 i c hi hholds
    rw [hframe _ hne]
    exact hv
  · rcases getElem?_set_cases hg with ⟨hne, hg⟩ | ⟨rfl, rfl⟩
    · refine (h.items j' g hg).mono hmore fun id₁ hholds v hv => ?_
      have hne' : id₁ ≠ id' := by
        rintro rfl
        cases hunread.2 j' g hg hholds
        exact hne rfl
      rw [hframe _ hne']
      exact hv
    · obtain ⟨hid, hinHand⟩ := h.items j' _ hitem
      exact ⟨hid, (hinHand.rotate key).2⟩

/-- The caller whose request a worker rotates. -/
theorem sees_ownRotates {p : PipelineState} {log : List TookEffect} {c : Caller}
    {ticket : Nat} {req : KeyRotationRequest} {id : KeyID} {dek : Bytes}
    {k : Except Err Key → Prog Effect (Except Err Key)} (h : c.Sees s p log ticket)
    (htraced : Traced s kms p)
    (hworkers : p.workers = [⟨ticket, req, .call (.repo (.rotateKey id dek)) k⟩])
    (hi : p.callers[ticket]? = some c) (hqueued : p.queued = []) (hanswered : p.answered = [])
    (key : Key) :
    c.Sees s { p with world := w', workers := [⟨ticket, req, k (.ok key)⟩] }
      (log ++ [⟨id, p.world.table.maxVersion id, key⟩]) ticket := by
  have hreq := (htraced.working _ (hworkers ▸ List.mem_singleton_self _)).1
  rw [PipelineState.request, hi, Option.bind_some] at hreq
  obtain ⟨item, phase⟩ := c
  cases phase with
  | preparing todo => cases hreq
  | waiting currentKey req' =>
    refine ⟨fun hmem => ?_, fun wk hwk _ => ?_, fun result hresult => ?_⟩
    · change ticket ∈ p.queued at hmem
      rw [hqueued] at hmem
      cases hmem
    · obtain rfl := List.mem_singleton.mp hwk
      have hinHand := h.working _ (hworkers ▸ List.mem_singleton_self _) rfl
      exact (hinHand.rotate key).2
    · change (result, ticket) ∈ w'.results.zip p.answered at hresult
      rw [hanswered, List.zip_nil_right] at hresult
      cases hresult
  | received currentKey req' ticket' result =>
    exact fun key' hkey' => List.mem_append_left _ (h key' hkey')
  | refused => trivial
  | cancelled req' => trivial

/-- The rotation of a worker takes effect. -/
theorem Consistent.workerRotates {pre post : List Worker} {ticket : Nat} {req : KeyRotationRequest}
    {id : KeyID} {dek : Bytes} {k : Except Err Key → Prog Effect (Except Err Key)} {key : Key}
    (h : Consistent s kms st)
    (hworkers : st.pipeline.workers =
      pre ++ ⟨ticket, req, .call (.repo (.rotateKey id dek)) k⟩ :: post)
    (hunread : Unread st (.caller ticket) id)
    (hop : worldSem s.uuid kms (.repo (.rotateKey id dek)) st.world (.ok key) w') :
    Consistent s kms { st with
      pipeline := { st.pipeline with
        world := w'
        workers := pre ++ ⟨ticket, req, k (.ok key)⟩ :: post }
      log := st.logged id key } := by
  have hstep : PipelineStep s kms Idle st.pipeline { st.pipeline with
      world := w', workers := pre ++ ⟨ticket, req, k (.ok key)⟩ :: post } := .work hworkers hop
  obtain ⟨-, hchain, -, hframe⟩ := worldSem_rotateKey h.chain hop
  have hmore : ∀ e ∈ st.log, e ∈ st.logged id key := fun e he => List.mem_append_left _ he
  obtain ⟨hqueued, rfl, rfl, hanswered⟩ := h.exclusive.alone hworkers
  refine ⟨hchain, h.traced.step hstep, h.exclusive.step hstep, fun e he => ?_, fun i c hi => ?_,
    fun j g hg => ?_⟩
  · rcases mem_logged h.chain hop e he with hold | hnew
    · exact h.log e hold
    · exact hnew
  · by_cases hticket : ticket = i
    · subst hticket
      exact sees_ownRotates (h.callers ticket c hi) h.traced hworkers hi hqueued hanswered key
    · refine Caller.Sees.stays (p := { st.pipeline with world := w' })
        ((h.callers i c hi).mono (worldSem_channels hop rfl).2 hmore fun id₁ hholds v hv => ?_) rfl
        fun currentKey req' hphase _ => ?_
      · have hne : id₁ ≠ id := by
          rintro rfl
          cases hunread.1 i c hi hholds
          exact hticket rfl
        rw [hframe _ hne]
        exact hv
      · -- the one request that is outstanding is not this caller's
        have hown := h.exclusive.own i c hi
        simp only [Caller.Own, hphase, PipelineState.outstanding, hqueued, hworkers, hanswered,
          List.nil_append, List.map_cons, List.map_nil, List.append_nil,
          List.mem_singleton] at hown
        exact absurd hown.symm hticket
  · refine (h.items j g hg).mono hmore fun id₁ hholds v hv => ?_
    have hne : id₁ ≠ id := by
      rintro rfl
      cases hunread.2 j g hg hholds
    rw [hframe _ hne]
    exact hv

/-- **The step lemma.** -/
theorem Consistent.step (h : Consistent s kms st) (hstep : RotationStep s kms Idle Unread st st') :
    Consistent s kms st' := by
  cases hstep with
  | pipeline hstep htable =>
    refine ⟨?_, h.traced.step hstep, h.exclusive.step hstep, h.log,
      sees_pipelineStep h.chain h.traced h.exclusive h.callers hstep htable, fun j g hg => ?_⟩
    · rw [RotationState.table, htable]
      exact h.chain
    · rw [RotationState.table, htable]
      exact h.items j g hg
  | workerRotates hworkers hcommits hop => exact h.workerRotates hworkers hcommits hop
  | batch req hidentity =>
    refine ⟨h.chain, h.traced, h.exclusive, h.log, h.callers, fun j g hg => ?_⟩
    rcases List.mem_append.mp (List.mem_of_getElem? hg) with hold | hnew
    · obtain ⟨j', hj'⟩ := List.mem_iff_getElem?.mp hold
      exact h.items j' g hj'
    · obtain ⟨item, -, rfl⟩ := List.mem_map.mp hnew
      unfold BatchRotation.start
      split
      · exact fun resp hresp => by cases hresp
      · assumption
  | read hitem hop =>
    rename_i j item id r w'
    obtain ⟨htable, hlatest⟩ := worldSem_getKey hop
    refine h.setItem htable (worldSem_channels hop rfl) ?_
    cases r with
    | error e => exact fun resp hresp => by cases hresp
    | ok key =>
      have hid : keyIDFromString s.uuid item.keyId = .ok id := h.items j _ hitem
      exact ⟨hid, .of_rotates (rotates_rotateFrom id key) (hlatest key rfl)⟩
  | work hitem hop htable =>
    rename_i j item id currentKey op k r w'
    obtain ⟨hid, hinHand⟩ := h.items j _ hitem
    obtain ⟨hnext, hchannels⟩ := hinHand.call h.chain hop htable
    exact h.setItem htable (worldSem_channels hop hchannels) ⟨hid, hnext⟩
  | itemRotates hitem hcommits hop => exact h.itemRotates hitem hcommits hop
  | fail hitem => exact h.setItem rfl ⟨rfl, rfl⟩ fun resp hresp => by cases hresp
  | answer hitem hop =>
    rename_i j item id currentKey key now w'
    obtain ⟨hid, hlogged⟩ := h.items j _ hitem
    refine h.setItem (worldSem_table hop rfl) (worldSem_channels hop rfl) fun resp hresp => ?_
    cases hresp
    exact consecutive_response h.log hid hlogged
  | elsewhere hchannels hrotates hsound hop =>
    rename_i op r w'
    have hkeeps : Chain s.uuid w'.table ∧ ∀ id v, st.table.maxVersion id = some v →
        w'.table.maxVersion id = some v := elsewhere_keeps h.chain hrotates hsound hop
    refine h.moves hkeeps.1 (worldSem_channels hop hchannels) (fun e he => .inl he)
      (fun _ he => he) (fun _ _ _ id _ => hkeeps.2 id) fun j g hg => ?_
    exact (h.items j g hg).mono (fun _ he => he) fun id _ => hkeeps.2 id

theorem consistent_start {p : ServicePool} (hp : Reachable s kms p) :
    Consistent s kms (.start p.state) :=
  ⟨hp.chain, traced_start _, ⟨Nat.zero_le _, fun _ _ hj => by cases hj⟩, fun _ he => (by cases he),
    fun _ _ hi => (by cases hi), fun _ _ hj => by cases hj⟩

/-- What every run keeps. -/
theorem rotation_invariant {p : ServicePool} (hp : Reachable s kms p)
    (hrun : Relation.ReflTransGen (RotationStep s kms Idle Unread) (.start p.state) st) :
    Consistent s kms st := by
  induction hrun with
  | refl => exact consistent_start hp
  | tail _ hstep ih => exact ih.step hstep

/-- **Rotation responses name consecutive versions**, from every state of the service and in every
run in which a rotation takes effect only while no other has the current key of the same id in
hand, and requests are accepted by an idle pipeline only. -/
theorem rotation_consecutive {p : ServicePool} (hp : Reachable s kms p)
    (hrun : Relation.ReflTransGen (RotationStep s kms Idle Unread) (.start p.state) st)
    {resp : RotateKeyResponse} (hresp : st.Responds resp) : Consecutive s st.log resp := by
  have hconsistent := rotation_invariant hp hrun
  rcases hresp with ⟨c, hc, currentKey, req, ticket, result, key, now, hphase, hkey, rfl⟩ |
    ⟨g, hg, hphase⟩
  · obtain ⟨i, hi⟩ := List.mem_iff_getElem?.mp hc
    have hsees := hconsistent.callers i c hi
    have hid := (hconsistent.traced.callers c hc).1 req (by rw [Caller.accepted, hphase])
    rw [Caller.Sees, hphase] at hsees
    exact consecutive_response hconsistent.log hid (hsees key hkey)
  · obtain ⟨j, hj⟩ := List.mem_iff_getElem?.mp hg
    have hsees := hconsistent.items j g hj
    rw [BatchRotation.Sees, hphase] at hsees
    exact hsees resp rfl

end Runs

/-! ### Batches that can be evaluated -/

namespace RotationState

/-- The next step of a goroutine in the sample deployment, if it can be made; `ok` is asked before
a rotation takes effect. -/
def turn (ok : RotationState → Nat → KeyID → Bool) (st : RotationState) (j : Nat) :
    Option RotationState :=
  match st.items[j]? with
  | some ⟨item, .reading id⟩ =>
    (sampleStep (.repo (.getKey id)) st.world).map fun out =>
      st.setItem out.2 j item (.afterRead sampleService id out.1)
  | some ⟨item, .holding id currentKey (.call (.repo (.rotateKey id' dek)) k)⟩ =>
    match ok st j id', sampleStep (.repo (.rotateKey id' dek)) st.world with
    | true, some (.ok key, w') =>
      some { st.setItem w' j item (.holding id currentKey (k (.ok key))) with
        log := st.logged id' key }
    | _, _ => none
  | some ⟨item, .holding id currentKey (.call op k)⟩ =>
    if op.isRepo then none
    else (sampleStep op st.world).map fun out =>
      st.setItem out.2 j item (.holding id currentKey (k out.1))
  | some ⟨item, .holding _ currentKey (.ret (.ok key))⟩ =>
    (sampleStep .timeNow st.world).map fun out => st.setItem out.2 j item
      (.returned (.ok (KeyService.rotationResponse item currentKey key out.1)))
  | some ⟨item, .holding _ _ (.ret (.error e))⟩ =>
    some (st.setItem st.world j item (.returned (.error e)))
  | _ => none

/-- The state after some turns; the same state, when one of them cannot be made. -/
def afterTurns (ok : RotationState → Nat → KeyID → Bool) (turns : List Nat) (st : RotationState) :
    RotationState :=
  (turns.foldlM (turn ok) st).getD st

variable {ok : RotationState → Nat → KeyID → Bool}
  {commits : RotationState → Rotator → KeyID → Prop} {accepts : PipelineState → Prop}

theorem turn_step (hok : ∀ st j id, ok st j id = true → commits st (.item j) id)
    {st st' : RotationState} {j : Nat} (h : st.turn ok j = some st') :
    RotationStep sampleService sampleKMS accepts commits st st' := by
  unfold turn at h
  split at h
  · obtain ⟨out, hout, rfl⟩ := Option.map_eq_some_iff.mp h
    exact .read ‹_› (sampleStep_sound _ _ _ _ hout)
  · split at h
    · rename_i hcond hop
      cases h
      exact .itemRotates ‹_› (hok _ _ _ hcond) (sampleStep_sound _ _ _ _ hop)
    · cases h
  · split at h
    · cases h
    · rename_i hitem hrepo
      obtain ⟨out, hout, rfl⟩ := Option.map_eq_some_iff.mp h
      have hop := sampleStep_sound _ _ _ _ hout
      exact .work hitem hop (worldSem_table hop (Bool.eq_false_iff.mpr hrepo))
  · obtain ⟨out, hout, rfl⟩ := Option.map_eq_some_iff.mp h
    exact .answer ‹_› (sampleStep_sound _ _ _ _ hout)
  · cases h
    exact .fail ‹_›
  · cases h

theorem afterTurns_run (hok : ∀ st j id, ok st j id = true → commits st (.item j) id)
    (turns : List Nat) (st : RotationState) :
    Relation.ReflTransGen (RotationStep sampleService sampleKMS accepts commits) st
      (st.afterTurns ok turns) := by
  have hrun : ∀ (turns : List Nat) (st st' : RotationState), turns.foldlM (turn ok) st = some st' →
      Relation.ReflTransGen (RotationStep sampleService sampleKMS accepts commits) st st' := by
    intro turns
    induction turns with
    | nil =>
      intro st st' h
      cases h
      exact .refl
    | cons j turns ih =>
      intro st st' h
      obtain ⟨st₁, hj, hrest⟩ := Option.bind_eq_some_iff.mp h
      exact .head (turn_step hok hj) (ih st₁ st' hrest)
  unfold afterTurns
  cases hturns : turns.foldlM (turn ok) st with
  | none => exact .refl
  | some st' => exact hrun turns st st' hturns

/-- The response of an item. -/
def response? (st : RotationState) (j : Nat) : Option RotateKeyResponse :=
  match st.items[j]? with
  | some ⟨_, .returned (.ok resp)⟩ => some resp
  | _ => none

theorem responds_of_response? {st : RotationState} {j : Nat} {resp : RotateKeyResponse}
    (h : st.response? j = some resp) : st.Responds resp := by
  unfold response? at h
  split at h
  · rename_i hitem
    cases h
    exact .inr ⟨_, List.mem_of_getElem? hitem, rfl⟩
  · cases h

end RotationState

/-- One key, and one batch that has it twice. -/
def rotateTwice : RotationState :=
  { RotationState.start (samplePool [.start sampleCreate, .finish 0]).state with
    items := [rotateFirst, rotateFirst].map (BatchRotation.start sampleService) }

theorem rotateTwice_run {commits : RotationState → Rotator → KeyID → Prop}
    {accepts : PipelineState → Prop} {ok : RotationState → Nat → KeyID → Bool}
    (hok : ∀ st j id, ok st j id = true → commits st (.item j) id) (turns : List Nat) :
    Relation.ReflTransGen (RotationStep sampleService sampleKMS accepts commits)
      (.start (samplePool [.start sampleCreate, .finish 0]).state)
      (rotateTwice.afterTurns ok turns) := by
  refine .head (.batch ⟨[rotateFirst, rotateFirst], false, some sampleContext⟩ rfl) ?_
  exact RotationState.afterTurns_run hok turns _

/-- The test for `Unread` where there are no callers. -/
def unread (st : RotationState) (j : Nat) (id : KeyID) : Bool :=
  st.pipeline.callers.isEmpty &&
    (List.range st.items.length).all fun j' =>
      j' = j || (st.items[j']?.bind BatchRotation.holds) ≠ some id

theorem unread_sound (st : RotationState) (j : Nat) (id : KeyID) (h : unread st j id = true) :
    Unread st (.item j) id := by
  obtain ⟨hcallers, hitems⟩ := Bool.and_eq_true_iff.mp h
  refine ⟨fun i c hi => ?_, fun j' g hg hholds => ?_⟩
  · rw [List.isEmpty_iff.mp hcallers] at hi
    cases hi
  · have hlt : j' < st.items.length := (List.getElem?_eq_some_iff.mp hg).1
    have htest := List.all_eq_true.mp hitems j' (List.mem_range.mpr hlt)
    rw [hg, Option.bind_some, hholds] at htest
    have heq : j' = j := by simpa using htest
    rw [heq]

/-- The second item reads after the first has rotated. -/
theorem rotation_consecutive_twice :
    ∃ (st : RotationState) (resp : RotateKeyResponse), st.Responds resp ∧
      resp.previousVersion = 2 ∧ Consecutive sampleService st.log resp := by
  let st := rotateTwice.afterTurns unread [0, 0, 0, 0, 0, 1, 1, 1, 1, 1]
  have hany : (st.response? 1).any (fun resp => resp.previousVersion = 2) = true := by
    decide +kernel
  obtain ⟨resp, hresp, hversion⟩ := (Option.any_eq_true _ _).mp hany
  have hresponds := RotationState.responds_of_response? hresp
  exact ⟨st, resp, hresponds, of_decide_eq_true hversion,
    rotation_consecutive (samplePool_reachable _) (rotateTwice_run unread_sound _) hresponds⟩

/-- Both items read version 1: the response of the second says that version 3 comes after
version 1. -/
theorem rotation_skips_version :
    ∃ (st : RotationState) (resp : RotateKeyResponse), Relation.ReflTransGen
        (RotationStep sampleService sampleKMS (fun _ => True) fun _ _ _ => True)
        (.start (samplePool [.start sampleCreate, .finish 0]).state) st ∧
      st.Responds resp ∧ resp.previousVersion = 1 ∧ resp.newVersion = 3 ∧
      ¬ Consecutive sampleService st.log resp := by
  let st := rotateTwice.afterTurns (fun _ _ _ => true) [0, 1, 0, 0, 0, 0, 1, 1, 1, 1]
  have hany : (st.response? 1).any
      (fun resp => resp.previousVersion = 1 ∧ resp.newVersion = 3) = true := by
    decide +kernel
  obtain ⟨resp, hresp, hversions⟩ := (Option.any_eq_true _ _).mp hany
  obtain ⟨hprevious, hnew⟩ := of_decide_eq_true hversions
  refine ⟨st, resp, rotateTwice_run (fun _ _ _ _ => trivial) _,
    RotationState.responds_of_response? hresp, hprevious, hnew, ?_⟩
  rintro ⟨e, -, -, -, hnext, -⟩
  rw [hprevious, hnew] at hnext
  cases hnext

end Polykey
