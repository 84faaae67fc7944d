/-
# The PostgreSQL repository

`PSQLAdapter`, method by method: the checks it makes before it talks to the database, the
statement it runs, and the error it makes of the outcome.  `exec` is the whole repository as one
function of the table.

`exec` is the database working.  `Answers` adds what else a caller may see: any call may fail
with any error and leave the table as it was (a lost connection, a timeout, a cancelled context,
the advisory lock of a rotation held by someone else).

`Change` is what a call can do to the table, said once; the invariants of the development are
proved from it and do not unfold the methods again.
-/
import Polykey.Persistence.Table

namespace Polykey

/-! ## 1. Values as Postgres stores them -/

/-- A `TIMESTAMPTZ` has microseconds. -/
def timestamptz (t : Time) : Time := t / 1000 * 1000

def int4Max : Int := 2147483647

/-- The text of a `pgconn.PgError`. -/
def pgError (message code : String) : Err :=
  .new ("ERROR: " ++ message ++ " (SQLSTATE " ++ code ++ ")")

/-- The row that `CopyFrom` writes for a key. -/
def Row.ofKey (k : Key) : Row where
  id := k.id
  version := k.version
  metadata := k.metadata
  encryptedDEK := k.encryptedDEK
  status := k.status
  storageType := getStorageType k.storageType
  createdAt := timestamptz k.createdAt
  updatedAt := timestamptz k.updatedAt
  revokedAt := none

namespace PSQLAdapter

/-! ## 2. Reads -/

/-- `PSQLAdapter.GetKey`. -/
def getKey (t : Table) (id : KeyID) : Except Err Key :=
  match t.latest id with
  | none => .error (.of .psqlErrKeyNotFound)
  | some r => .ok r.scan

/-- `PSQLAdapter.GetKeyByVersion`. -/
def getKeyByVersion (t : Table) (id : KeyID) (version : Int) : Except Err Key :=
  if version ≤ 0 then .error (.of .psqlErrInvalidVersion)
  else match t.atVersion id version with
    | none => .error (.of .psqlErrKeyNotFound)
    | some r => .ok r.scan

/-- Unmarshalling into a `pk.KeyMetadata` value: the JSON `null` leaves the zero message. -/
def unmarshal (metadata : Option KeyMetadata) : KeyMetadata := metadata.getD .zero

/-- `PSQLAdapter.GetKeyMetadata`. -/
def getKeyMetadata (t : Table) (id : KeyID) : Except Err (Option KeyMetadata) :=
  match t.latest id with
  | none => .error (.of .psqlErrKeyNotFound)
  | some r => .ok (some (unmarshal r.metadata))

/-- `PSQLAdapter.GetKeyMetadataByVersion`. -/
def getKeyMetadataByVersion (t : Table) (id : KeyID) (version : Int) :
    Except Err (Option KeyMetadata) :=
  if version ≤ 0 then .error (.of .psqlErrInvalidVersion)
  else match t.atVersion id version with
    | none => .error (.of .psqlErrKeyNotFound)
    | some r => .ok (some (unmarshal r.metadata))

/-- `PSQLAdapter.ListKeys`: of each id the latest row, those created before the cursor, newest
first.  Rows created at the same time come in the order they lie in the table. -/
def listKeys (t : Table) (lastCreatedAt : Option Time) (limit : Int) : Except Err (List Key) :=
  if limit < 0 then
    .error ((pgError "LIMIT must not be negative" "2201W").wrap "error iterating over rows: ")
  else
    let latestKeys := t.rows.filter fun r => t.latest r.id = some r
    let before := latestKeys.filter fun r =>
      lastCreatedAt.all fun cursor => decide (r.createdAt < timestamptz cursor)
    let sorted := before.insertionSort fun a b => b.createdAt ≤ a.createdAt
    .ok ((sorted.take limit.toNat).map Row.scan)

/-- `PSQLAdapter.GetKeyVersions`. -/
def getKeyVersions (t : Table) (id : KeyID) : List Key :=
  ((t.versionsOf id).insertionSort fun a b => b.version ≤ a.version).map Row.scan

/-- `PSQLAdapter.Exists`. -/
def «exists» (t : Table) (id : KeyID) : Bool := t.rows.any fun r => r.id = id

/-- `PSQLAdapter.GetBatchKeys`. -/
def getBatchKeys (t : Table) (ids : List KeyID) : List Key := (t.selectBatch ids).map Row.scan

/-- `PSQLAdapter.GetBatchKeyMetadata`. -/
def getBatchKeyMetadata (t : Table) (ids : List KeyID) : List KeyMetadata :=
  (t.selectBatch ids).map fun r => unmarshal r.metadata

/-! ## 3. Writes -/

/-- `CopyFrom` of some keys; the only way it can fail is the primary key. -/
def copyFrom (t : Table) (keys : List Key) : Except Err Unit × Table :=
  match t.insert (keys.map Row.ofKey) with
  | none => (.error (.of .psqlErrKeyAlreadyExists), t)
  | some t' => (.ok (), t')

/-- `PSQLAdapter.CreateKey`. -/
def createKey (t : Table) (key : Option Key) : Except Err Unit × Table :=
  match key with
  | none => (.error (.new "key cannot be nil"), t)
  | some k =>
    if k.metadata = none then (.error (.new "key metadata cannot be nil"), t)
    else if k.encryptedDEK = [] then (.error (.new "encrypted DEK cannot be empty"), t)
    else copyFrom t [k]

/-- `PSQLAdapter.CreateBatchKeys`. -/
def createBatchKeys (t : Table) (keys : List Key) : Except Err Unit × Table :=
  if keys = [] then (.ok (), t) else copyFrom t keys

/-- `PSQLAdapter.UpdateKeyMetadata`. -/
def updateKeyMetadata (now : Time) (t : Table) (id : KeyID) (metadata : Option KeyMetadata) :
    Except Err Unit × Table :=
  match metadata with
  | none => (.error (.new "metadata cannot be nil"), t)
  | some m =>
    if t.maxVersion id = none then (.error (.of .psqlErrKeyNotFound), t)
    else (.ok (), t.updateMetadata id (some m) (timestamptz now))

/-- `(metadata->>'version')::int`.  The field is marshalled with `omitempty`, so a version of
zero is not there, and neither is any field of the JSON `null`. -/
def versionField (metadata : Option KeyMetadata) : Option Int :=
  match metadata with
  | none => none
  | some m => if m.version = 0 then none else some m.version

/-- The row the rotation query inserts, `m` being the metadata of the old one. -/
def rotatedRow (now : Time) (old : Row) (m : KeyMetadata) (newEncryptedDEK : Bytes) : Row where
  id := old.id
  version := m.version + 1
  metadata := some { m with version := m.version + 1 }
  encryptedDEK := newEncryptedDEK
  status := .active
  storageType := old.storageType
  createdAt := timestamptz now
  updatedAt := timestamptz now
  revokedAt := none

/-- `rotateQuery`.  It has no row to return when the id has none; it fails when the new version
is null, does not fit its column, or is already there. -/
def rotateQuery (now : Time) (t : Table) (id : KeyID) (newEncryptedDEK : Bytes) :
    Except Err (Option (Row × Table)) :=
  match t.latest id with
  | none => .ok none
  | some old =>
    match old.metadata, versionField old.metadata with
    | some m, some _ =>
      if int4Max ≤ m.version then .error (pgError "integer out of range" "22003")
      else
        let row := rotatedRow now old m newEncryptedDEK
        match (t.markRotated id (timestamptz now)).insert [row] with
        | none => .error (pgError
            "duplicate key value violates unique constraint \"keys_pkey\"" "23505")
        | some t' => .ok (some (row, t'))
    | _, _ => .error (pgError
        "null value in column \"version\" of relation \"keys\" violates not-null constraint"
        "23502")

/-- `PSQLAdapter.RotateKey` with the advisory lock free, `rotateKeyInTx` inside
`ExecuteInTransaction`. -/
def rotateKey (uuid : UUIDPkg) (now : Time) (t : Table) (id : KeyID) (newEncryptedDEK : Bytes) :
    Except Err Key × Table :=
  if newEncryptedDEK = [] then (.error (.new "new encrypted DEK cannot be empty"), t)
  else match rotateQuery now t id newEncryptedDEK with
    | .error e =>
      (.error (((e.wrap "failed to scan key row: ").wrap
        ("failed to rotate key " ++ id.string uuid ++ ": ")).wrap "transaction failed: "), t)
    | .ok none => (.error ((Err.of .psqlErrKeyNotFound).wrap "transaction failed: "), t)
    | .ok (some (row, t')) => (.ok row.scan, t')

/-- `PSQLAdapter.RevokeKey`. -/
def revokeKey (now : Time) (t : Table) (id : KeyID) : Except Err Unit × Table :=
  if t.versionsOf id = [] then (.error (.of .psqlErrKeyNotFound), t)
  else (.ok (), t.revoke [id] (timestamptz now))

/-- `PSQLAdapter.RevokeBatchKeys`: ids without a row only cause a warning. -/
def revokeBatchKeys (now : Time) (t : Table) (ids : List KeyID) : Except Err Unit × Table :=
  (.ok (), t.revoke ids (timestamptz now))

/-- The statements of one batch, in order.  The batch is one implicit transaction. -/
def updateEach (now : Time) (t : Table) (updates : List (KeyID × Option KeyMetadata)) : Table :=
  updates.foldl (fun t u => t.updateMetadata u.1 u.2 (timestamptz now)) t

/-- `PSQLAdapter.UpdateBatchKeyMetadata`: it does not look at the numbers of rows affected. -/
def updateBatchKeyMetadata (now : Time) (t : Table) (updates : List Key) :
    Except Err Unit × Table :=
  if updates.any fun k => k.metadata = none then
    (.error (.new "key metadata cannot be nil for batch update"), t)
  else (.ok (), updateEach now t (updates.map fun k => (k.id, k.metadata)))

/-! ## 4. The repository -/

/-- One call of the repository on a database that works. -/
def exec (uuid : UUIDPkg) (now : Time) : (op : RepoOp) → Table → op.Answer × Table
  | .getKey id, t => (getKey t id, t)
  | .getKeyByVersion id v, t => (getKeyByVersion t id v, t)
  | .getKeyMetadata id, t => (getKeyMetadata t id, t)
  | .getKeyMetadataByVersion id v, t => (getKeyMetadataByVersion t id v, t)
  | .createKey key, t => createKey t key
  | .createBatchKeys keys, t => createBatchKeys t keys
  | .listKeys cursor limit, t => (listKeys t cursor limit, t)
  | .updateKeyMetadata id m, t => updateKeyMetadata now t id m
  | .rotateKey id dek, t => rotateKey uuid now t id dek
  | .revokeKey id, t => revokeKey now t id
  | .getKeyVersions id, t => (.ok (getKeyVersions t id), t)
  | .exists id, t => (.ok («exists» t id), t)
  | .getBatchKeys ids, t => (.ok (getBatchKeys t ids), t)
  | .getBatchKeyMetadata ids, t => (.ok (getBatchKeyMetadata t ids), t)
  | .revokeBatchKeys ids, t => revokeBatchKeys now t ids
  | .updateBatchKeyMetadata updates, t => updateBatchKeyMetadata now t updates

/-- What a caller may see: the database works, or the call fails and changes nothing. -/
def Answers (uuid : UUIDPkg) (now : Time) (op : RepoOp) (t : Table) (r : op.Answer) (t' : Table) :
    Prop :=
  exec uuid now op t = (r, t') ∨ (∃ e, r = .error e) ∧ t' = t

/-! ## 5. What a call can do to the table

Sixteen methods, and five things that can happen to the table. `exec_change` goes through the
methods once; every invariant of the development is a lemma about `Change`. -/

end PSQLAdapter

namespace RepoOp

/-- The keys a call inserts. -/
def created : RepoOp → List Key
  | createKey key => key.toList
  | createBatchKeys keys => keys
  | _ => []

/-- The metadata a call writes, each under its id. -/
def written : RepoOp → List (KeyID × Option KeyMetadata)
  | updateKeyMetadata id m => [(id, m)]
  | updateBatchKeyMetadata updates => updates.map fun k => (k.id, k.metadata)
  | _ => []

/-- The ids whose rows a call can change. -/
def touched : RepoOp → List KeyID
  | createKey key => key.toList.map (·.id)
  | createBatchKeys keys => keys.map (·.id)
  | updateKeyMetadata id _ => [id]
  | updateBatchKeyMetadata updates => updates.map (·.id)
  | revokeKey id => [id]
  | revokeBatchKeys ids => ids
  | rotateKey id _ => [id]
  | _ => []

/-- The ids a call revokes. -/
def revoked : RepoOp → List KeyID
  | revokeKey id => [id]
  | revokeBatchKeys ids => ids
  | _ => []

end RepoOp

namespace PSQLAdapter

/-- A rotation of `id` that succeeds: `old` was the latest row and `m` its metadata. -/
structure Rotation (now : Time) (t : Table) (id : KeyID) (dek : Bytes) (old : Row)
    (m : KeyMetadata) (t' : Table) : Prop where
  dek_ne : dek ≠ []
  latest : t.latest id = some old
  metadata : old.metadata = some m
  version_ne : m.version ≠ 0
  version_lt : m.version < int4Max
  free : t.atVersion id (m.version + 1) = none
  rows : t'.rows = (t.markRotated id (timestamptz now)).rows ++ [rotatedRow now old m dek]

/-- What a call can do to the table. -/
inductive Change (now : Time) : RepoOp → Table → Table → Prop
  | same {op : RepoOp} {t : Table} : Change now op t t
  | create {op : RepoOp} {t t' : Table} (h : t.insert (op.created.map Row.ofKey) = some t') :
      Change now op t t'
  | update {op : RepoOp} {t : Table} (h : ∀ u ∈ op.written, u.2 ≠ none) :
      Change now op t (updateEach now t op.written)
  | revoke {op : RepoOp} {t : Table} : Change now op t (t.revoke op.revoked (timestamptz now))
  | rotate {id : KeyID} {dek : Bytes} {t t' : Table} {old : Row} {m : KeyMetadata}
      (h : Rotation now t id dek old m t') : Change now (.rotateKey id dek) t t'

variable {uuid : UUIDPkg} {now : Time} {t t' : Table}

/-- The insert of a rotation goes in exactly when the next version is free. -/
theorem insert_rotatedRow (now : Time) (dek : Bytes) {id : KeyID} {old : Row} {m : KeyMetadata}
    (hold : t.latest id = some old) :
    (∃ t', (t.markRotated id (timestamptz now)).insert [rotatedRow now old m dek] = some t') ↔
      t.atVersion id (m.version + 1) = none := by
  have hid : old.id = id := (Table.latest_eq_some.mp hold).2.1
  rw [Table.insert_singleton, Table.markRotated, Table.atVersion_mapRows]
  simp [rotatedRow, hid]

/-- **Rotation, spelled out.**  It succeeds exactly as `Rotation` says, with the new row. -/
theorem rotateKey_eq_ok {id : KeyID} {dek : Bytes} {key : Key} :
    rotateKey uuid now t id dek = (.ok key, t') ↔
      ∃ old m, Rotation now t id dek old m t' ∧ key = (rotatedRow now old m dek).scan := by
  constructor
  · intro h
    unfold rotateKey rotateQuery at h
    split at h
    · cases (Prod.mk.inj h).1
    rename_i hdek
    cases hold : t.latest id with
    | none => simp [hold] at h
    | some old =>
      cases hm : old.metadata with
      | none => simp [hold, hm, versionField] at h
      | some m =>
        by_cases hv : m.version = 0
        · simp [hold, hm, versionField, hv] at h
        by_cases hmax : int4Max ≤ m.version
        · simp [hold, hm, versionField, hv, hmax] at h
        cases hins : (t.markRotated id (timestamptz now)).insert [rotatedRow now old m dek] with
        | none => simp [hold, hm, versionField, hv, hmax, hins] at h
        | some t₁ =>
          simp only [hold, hm, versionField, hv, hmax, hins, if_false] at h
          obtain ⟨hkey, rfl⟩ := Prod.mk.inj h
          refine ⟨old, m, ⟨hdek, hold, hm, hv, by omega, ?_, Table.insert_eq_some hins⟩, ?_⟩
          · exact (insert_rotatedRow now dek hold).mp ⟨_, hins⟩
          · exact (Except.ok.inj hkey).symm
  · rintro ⟨old, m, h, rfl⟩
    obtain ⟨t₁, hins⟩ := (insert_rotatedRow now dek h.latest).mpr h.free
    have ht : t₁ = t' := Table.eq_of_rows_eq ((Table.insert_eq_some hins).trans h.rows.symm)
    have hmax : ¬ int4Max ≤ m.version := by have := h.version_lt; omega
    simp [rotateKey, rotateQuery, h.dek_ne, h.latest, h.metadata, versionField, h.version_ne,
      hmax, hins, ht]

/-- A rotation that fails changes nothing. -/
theorem rotateKey_error {id : KeyID} {dek : Bytes} {e : Err}
    (h : rotateKey uuid now t id dek = (.error e, t')) : t' = t := by
  unfold rotateKey at h
  split at h
  · exact (Prod.mk.inj h).2.symm
  · split at h
    · exact (Prod.mk.inj h).2.symm
    · exact (Prod.mk.inj h).2.symm
    · cases (Prod.mk.inj h).1

theorem copyFrom_change (op : RepoOp) {r : Except Err Unit}
    (h : copyFrom t op.created = (r, t')) : Change now op t t' := by
  unfold copyFrom at h
  split at h
  · obtain ⟨-, rfl⟩ := Prod.mk.inj h
    exact .same
  · rename_i hins
    obtain ⟨-, rfl⟩ := Prod.mk.inj h
    exact .create hins

/-- **Every call changes the table as `Change` says.** -/
theorem exec_change {op : RepoOp} {r : op.Answer} (h : exec uuid now op t = (r, t')) :
    Change now op t t' := by
  cases op with
  | createKey key =>
    cases key with
    | none => exact (Prod.mk.inj h).2 ▸ .same
    | some k =>
      simp only [exec, createKey] at h
      split at h
      · exact (Prod.mk.inj h).2 ▸ .same
      · split at h
        · exact (Prod.mk.inj h).2 ▸ .same
        · exact copyFrom_change (.createKey (some k)) h
  | createBatchKeys keys =>
    simp only [exec, createBatchKeys] at h
    split at h
    · exact (Prod.mk.inj h).2 ▸ .same
    · exact copyFrom_change (.createBatchKeys keys) h
  | updateKeyMetadata id m =>
    cases m with
    | none => exact (Prod.mk.inj h).2 ▸ .same
    | some m =>
      simp only [exec, updateKeyMetadata] at h
      split at h
      · exact (Prod.mk.inj h).2 ▸ .same
      · obtain ⟨-, rfl⟩ := Prod.mk.inj h
        exact .update (by simp [RepoOp.written])
  | updateBatchKeyMetadata updates =>
    simp only [exec, updateBatchKeyMetadata] at h
    split at h
    · exact (Prod.mk.inj h).2 ▸ .same
    · rename_i hnil
      obtain ⟨-, rfl⟩ := Prod.mk.inj h
      refine .update fun u hu => ?_
      obtain ⟨k, hk, rfl⟩ := List.mem_map.mp hu
      simp only [List.any_eq_true, decide_eq_true_eq, not_exists, not_and] at hnil
      exact hnil k hk
  | revokeKey id =>
    simp only [exec, revokeKey] at h
    split at h
    · exact (Prod.mk.inj h).2 ▸ .same
    · obtain ⟨-, rfl⟩ := Prod.mk.inj h
      exact .revoke
  | revokeBatchKeys ids =>
    obtain ⟨-, rfl⟩ := Prod.mk.inj h
    exact .revoke
  | rotateKey id dek =>
    cases r with
    | error e => exact rotateKey_error h ▸ .same
    | ok key =>
      obtain ⟨old, m, hrot, -⟩ := rotateKey_eq_ok.mp h
      exact .rotate hrot
  | _ => exact (Prod.mk.inj h).2 ▸ .same

theorem copyFrom_error {keys : List Key} {e : Err} (h : copyFrom t keys = (.error e, t')) :
    t' = t := by
  unfold copyFrom at h
  split at h
  · exact (Prod.mk.inj h).2.symm
  · cases (Prod.mk.inj h).1

/-- A call that fails leaves the table as it was. -/
theorem exec_error {op : RepoOp} {e : Err} (h : exec uuid now op t = (.error e, t')) : t' = t := by
  cases op with
  | createKey key =>
    cases key with
    | none => exact (Prod.mk.inj h).2.symm
    | some k =>
      simp only [exec, createKey] at h
      split at h
      · exact (Prod.mk.inj h).2.symm
      · split at h
        · exact (Prod.mk.inj h).2.symm
        · exact copyFrom_error h
  | createBatchKeys keys =>
    simp only [exec, createBatchKeys] at h
    split at h
    · exact (Prod.mk.inj h).2.symm
    · exact copyFrom_error h
  | updateKeyMetadata id m =>
    cases m with
    | none => exact (Prod.mk.inj h).2.symm
    | some m =>
      simp only [exec, updateKeyMetadata] at h
      split at h
      · exact (Prod.mk.inj h).2.symm
      · cases (Prod.mk.inj h).1
  | updateBatchKeyMetadata updates =>
    simp only [exec, updateBatchKeyMetadata] at h
    split at h
    · exact (Prod.mk.inj h).2.symm
    · cases (Prod.mk.inj h).1
  | revokeKey id =>
    simp only [exec, revokeKey] at h
    split at h
    · exact (Prod.mk.inj h).2.symm
    · cases (Prod.mk.inj h).1
  | revokeBatchKeys ids => cases (Prod.mk.inj h).1
  | rotateKey id dek => exact rotateKey_error h
  | _ => exact (Prod.mk.inj h).2.symm

/-- The same of everything a caller may see. -/
theorem Answers.change {op : RepoOp} {r : op.Answer} (h : Answers uuid now op t r t') :
    Change now op t t' := by
  rcases h with h | ⟨-, rfl⟩
  · exact exec_change h
  · exact .same

/-- The latest row, as a key. -/
theorem getKey_eq (t : Table) (id : KeyID) : getKey t id =
    ((t.requested id 0).map Row.scan).elim (.error (.of .psqlErrKeyNotFound)) .ok := by
  unfold getKey
  rw [Table.requested, if_neg (by decide)]
  cases t.latest id <;> rfl

/-- The row of a version, as a key. -/
theorem getKeyByVersion_eq (t : Table) (id : KeyID) {v : Int} (hv : 0 < v) :
    getKeyByVersion t id v =
      ((t.requested id v).map Row.scan).elim (.error (.of .psqlErrKeyNotFound)) .ok := by
  unfold getKeyByVersion
  rw [Table.requested, if_pos hv, if_neg (by omega)]
  cases t.atVersion id v <;> rfl

/-- The repository returns the latest row. -/
theorem exec_getKey {id : KeyID} {key : Key} :
    exec uuid now (.getKey id) t = (.ok key, t') ↔
      ∃ r, t.latest id = some r ∧ key = r.scan ∧ t' = t := by
  simp only [exec, getKey]
  cases h : t.latest id <;> simp [eq_comm]

/-- The repository returns the row of a version. -/
theorem exec_getKeyByVersion {id : KeyID} {v : Int} {key : Key} (hv : 0 < v) :
    exec uuid now (.getKeyByVersion id v) t = (.ok key, t') ↔
      ∃ r, t.atVersion id v = some r ∧ key = r.scan ∧ t' = t := by
  have hv' : ¬ v ≤ 0 := by omega
  simp only [exec, getKeyByVersion, if_neg hv']
  cases h : t.atVersion id v <;> simp [eq_comm]

/-- **The frame of a call**: the rows of every id it does not touch are the same. -/
theorem Change.versionsOf {op : RepoOp} (h : Change now op t t') {id : KeyID}
    (hid : id ∉ op.touched) : t'.versionsOf id = t.versionsOf id := by
  cases h with
  | same => rfl
  | create hins =>
    have hnew : (op.created.map Row.ofKey).filter (fun r => decide (r.id = id)) = [] := by
      refine List.filter_eq_nil_iff.mpr fun r hr => ?_
      obtain ⟨k, hk, rfl⟩ := List.mem_map.mp hr
      have hne : k.id ≠ id := by
        rintro rfl
        refine hid ?_
        cases op with
        | createKey key => exact List.mem_map_of_mem hk
        | createBatchKeys keys => exact List.mem_map_of_mem hk
        | _ => cases hk
      simp [Row.ofKey, hne]
    rw [Table.versionsOf, Table.insert_eq_some hins, List.filter_append, hnew, List.append_nil]
    rfl
  | update _ =>
    have hne : ∀ u ∈ op.written, u.1 ≠ id := by
      rintro u hu rfl
      refine hid ?_
      cases op with
      | updateKeyMetadata id' m => exact List.mem_map_of_mem (f := Prod.fst) hu
      | updateBatchKeyMetadata updates =>
        obtain ⟨k, hk, rfl⟩ := List.mem_map.mp hu
        exact List.mem_map_of_mem hk
      | _ => cases hu
    generalize op.written = updates at hne
    induction updates generalizing t with
    | nil => rfl
    | cons u us ih =>
      refine (ih fun u' hu' => hne u' (by simp [hu'])).trans ?_
      refine Table.versionsOf_mapRows fun r hr => if_neg fun hnew => ?_
      exact hne u (by simp) (hnew.1.symm.trans hr)
  | revoke =>
    refine Table.versionsOf_mapRows fun r hr => if_neg fun hmem => hid ?_
    subst hr
    cases op with
    | revokeKey id' => exact hmem
    | revokeBatchKeys ids => exact hmem
    | _ => cases hmem
  | @rotate id' dek _ _ old m hrot =>
    have hne : id' ≠ id := fun heq => hid (by simp [RepoOp.touched, heq])
    have hold : old.id = id' := (Table.latest_eq_some.mp hrot.latest).2.1
    have hmarked : (t.markRotated id' (timestamptz now)).versionsOf id = t.versionsOf id :=
      Table.versionsOf_mapRows fun r hr => if_neg fun hnew => hne (hnew.1.symm.trans hr)
    rw [← hmarked, Table.versionsOf, hrot.rows, List.filter_append]
    have hrow : [rotatedRow now old m dek].filter (fun r => decide (r.id = id)) = [] := by
      simp [rotatedRow, hold, hne]
    rw [hrow, List.append_nil]
    rfl

end PSQLAdapter

end Polykey
