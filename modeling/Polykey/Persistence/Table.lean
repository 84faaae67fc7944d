/-
# The keys table

The table of `migrations/001_create_keys_table.up.sql` and the statements that run on it.  A
`Table` carries the primary key `(id, version)` as a field, so a table that breaks it cannot be
built: an update has to say that it leaves the key columns alone, and an insert that would clash
has no result.

A statement is one function on tables, so it is atomic, which is what Postgres provides for a
statement and for the serializable transaction around the rotation query.
-/
import Mathlib
import Polykey.Domain.Types

namespace Polykey

/-! ## 1. Rows and tables -/

/-- The `storage_type` column. -/
inductive StorageType
  | standard
  | hardened
  | unknown
  deriving DecidableEq, Repr

/-- `getStorageTypeOptimized`. -/
def getStorageType (p : StorageProfile) : StorageType :=
  if p = .standard then .standard else if p = .hardened then .hardened else .unknown

/-- A row of `keys`.  `metadata` is a JSON value; `none` is the JSON `null`. -/
structure Row where
  id : KeyID
  version : Int
  metadata : Option KeyMetadata
  encryptedDEK : Bytes
  status : KeyStatus
  storageType : StorageType
  createdAt : Time
  updatedAt : Time
  revokedAt : Option Time
  deriving DecidableEq

namespace Row

/-- The primary key columns. -/
def key (r : Row) : KeyID × Int := (r.id, r.version)

/-- `ScanKeyRow`, `ScanKeyRowWithID`: the storage type column is read and dropped. -/
def scan (r : Row) : Key where
  id := r.id
  version := r.version
  metadata := r.metadata
  encryptedDEK := r.encryptedDEK
  status := r.status
  createdAt := r.createdAt
  updatedAt := r.updatedAt
  revokedAt := r.revokedAt

end Row

/-- The table, with its primary key. -/
structure Table where
  rows : List Row
  primaryKey : (rows.map Row.key).Nodup

namespace Table

def empty : Table := ⟨[], List.nodup_nil⟩

/-- The primary key determines the row. -/
theorem row_unique (t : Table) {r r' : Row} (hr : r ∈ t.rows) (hr' : r' ∈ t.rows)
    (hid : r.id = r'.id) (hv : r.version = r'.version) : r = r' :=
  List.inj_on_of_nodup_map t.primaryKey hr hr' (by simp [Row.key, hid, hv])

theorem eq_of_rows_eq {t t' : Table} (h : t.rows = t'.rows) : t = t' := by
  cases t
  cases t'
  cases h
  rfl

instance : DecidableEq Table := fun t t' =>
  if h : t.rows = t'.rows then .isTrue (eq_of_rows_eq h)
  else .isFalse fun he => h (congrArg Table.rows he)

/-! ## 2. Queries -/

/-- `WHERE id = $1`. -/
def versionsOf (t : Table) (id : KeyID) : List Row := t.rows.filter fun r => r.id = id

/-- `WHERE id = $1 ORDER BY version DESC LIMIT 1`. -/
def latest (t : Table) (id : KeyID) : Option Row :=
  (t.versionsOf id).foldl (List.argAux fun b c => c.version < b.version) none

/-- The row with the lowest version, which is what is left of an id when the rows of a batch are
folded into a map. -/
def oldest (t : Table) (id : KeyID) : Option Row :=
  (t.versionsOf id).foldl (List.argAux fun b c => b.version < c.version) none

/-- `SELECT MAX(version) FROM keys WHERE id = $1`. -/
def maxVersion (t : Table) (id : KeyID) : Option Int := (t.latest id).map Row.version

/-- `WHERE id = $1 AND version = $2`. -/
def atVersion (t : Table) (id : KeyID) (v : Int) : Option Row :=
  t.rows.find? fun r => r.id = id ∧ r.version = v

/-- The row of a version; the latest one for a version that is not positive. -/
def requested (t : Table) (id : KeyID) (version : Int) : Option Row :=
  if 0 < version then t.atVersion id version else t.latest id

/-- `ORDER BY id, version DESC`. -/
def IdVersionDesc (a b : Row) : Prop :=
  a.id.value < b.id.value ∨ a.id = b.id ∧ b.version ≤ a.version

instance : DecidableRel IdVersionDesc := fun a b =>
  inferInstanceAs (Decidable (a.id.value < b.id.value ∨ a.id = b.id ∧ b.version ≤ a.version))

/-- `WHERE id = ANY($1) ORDER BY id, version DESC`. -/
def selectBatch (t : Table) (ids : List KeyID) : List Row :=
  (t.rows.filter fun r => r.id ∈ ids).insertionSort IdVersionDesc

theorem mem_versionsOf {t : Table} {id : KeyID} {r : Row} :
    r ∈ t.versionsOf id ↔ r ∈ t.rows ∧ r.id = id := by simp [versionsOf]

theorem latest_eq_argmax (t : Table) (id : KeyID) :
    t.latest id = (t.versionsOf id).argmax Row.version := rfl

theorem oldest_eq_argmin (t : Table) (id : KeyID) :
    t.oldest id = (t.versionsOf id).argmin Row.version := rfl

/-- The latest row is the one no other row of its id exceeds. -/
theorem latest_eq_some {t : Table} {id : KeyID} {r : Row} :
    t.latest id = some r ↔
      r ∈ t.rows ∧ r.id = id ∧ ∀ r' ∈ t.rows, r'.id = id → r'.version ≤ r.version := by
  constructor
  · intro h
    have hmem := mem_versionsOf.mp (List.argmax_mem (Option.mem_def.mpr h))
    refine ⟨hmem.1, hmem.2, fun r' hr' hid => ?_⟩
    exact List.le_of_mem_argmax (mem_versionsOf.mpr ⟨hr', hid⟩) (Option.mem_def.mpr h)
  · rintro ⟨hmem, hid, hmax⟩
    have hne : t.latest id ≠ none := by
      rw [latest_eq_argmax, Ne, List.argmax_eq_none]
      exact List.ne_nil_of_mem (mem_versionsOf.mpr ⟨hmem, hid⟩)
    obtain ⟨m, hm⟩ := Option.ne_none_iff_exists'.mp hne
    have hm' := mem_versionsOf.mp (List.argmax_mem (Option.mem_def.mpr hm))
    have hge : r.version ≤ m.version :=
      List.le_of_mem_argmax (mem_versionsOf.mpr ⟨hmem, hid⟩) (Option.mem_def.mpr hm)
    have hle := hmax m hm'.1 hm'.2
    rw [hm, t.row_unique hm'.1 hmem (hm'.2.trans hid.symm) (by omega)]

/-- The oldest row is the one that exceeds no other row of its id. -/
theorem oldest_eq_some {t : Table} {id : KeyID} {r : Row} :
    t.oldest id = some r ↔
      r ∈ t.rows ∧ r.id = id ∧ ∀ r' ∈ t.rows, r'.id = id → r.version ≤ r'.version := by
  constructor
  · intro h
    have hmem := mem_versionsOf.mp (List.argmin_mem (Option.mem_def.mpr h))
    refine ⟨hmem.1, hmem.2, fun r' hr' hid => ?_⟩
    exact List.le_of_mem_argmin (mem_versionsOf.mpr ⟨hr', hid⟩) (Option.mem_def.mpr h)
  · rintro ⟨hmem, hid, hmin⟩
    have hne : t.oldest id ≠ none := by
      rw [oldest_eq_argmin, Ne, List.argmin_eq_none]
      exact List.ne_nil_of_mem (mem_versionsOf.mpr ⟨hmem, hid⟩)
    obtain ⟨m, hm⟩ := Option.ne_none_iff_exists'.mp hne
    have hm' := mem_versionsOf.mp (List.argmin_mem (Option.mem_def.mpr hm))
    have hle : m.version ≤ r.version :=
      List.le_of_mem_argmin (mem_versionsOf.mpr ⟨hmem, hid⟩) (Option.mem_def.mpr hm)
    have hge := hmin m hm'.1 hm'.2
    rw [hm, t.row_unique hm'.1 hmem (hm'.2.trans hid.symm) (by omega)]

theorem oldest_eq_none {t : Table} {id : KeyID} :
    t.oldest id = none ↔ ∀ r ∈ t.rows, r.id ≠ id := by
  simp [oldest_eq_argmin, List.argmin_eq_none, versionsOf, List.filter_eq_nil_iff]

theorem latest_eq_none {t : Table} {id : KeyID} :
    t.latest id = none ↔ ∀ r ∈ t.rows, r.id ≠ id := by
  simp [latest_eq_argmax, List.argmax_eq_none, versionsOf, List.filter_eq_nil_iff]

theorem exists_latest {t : Table} {id : KeyID} (h : t.versionsOf id ≠ []) :
    ∃ r, t.latest id = some r := by
  refine Option.ne_none_iff_exists'.mp fun hnone => h ?_
  rw [latest_eq_argmax] at hnone
  exact List.argmax_eq_none.mp hnone

theorem exists_oldest {t : Table} {id : KeyID} (h : t.versionsOf id ≠ []) :
    ∃ r, t.oldest id = some r := by
  refine Option.ne_none_iff_exists'.mp fun hnone => h ?_
  rw [oldest_eq_argmin] at hnone
  exact List.argmin_eq_none.mp hnone

theorem atVersion_eq_some {t : Table} {id : KeyID} {v : Int} {r : Row} :
    t.atVersion id v = some r ↔ r ∈ t.rows ∧ r.id = id ∧ r.version = v := by
  constructor
  · intro h
    have hp := List.find?_some h
    simp only [decide_eq_true_eq] at hp
    exact ⟨List.mem_of_find?_eq_some h, hp⟩
  · rintro ⟨hmem, hid, hv⟩
    cases h : t.atVersion id v with
    | none => exact absurd (List.find?_eq_none.mp h r hmem) (by simp [hid, hv])
    | some r' =>
      have hp := List.find?_some h
      simp only [decide_eq_true_eq] at hp
      rw [t.row_unique (List.mem_of_find?_eq_some h) hmem (hp.1.trans hid.symm)
        (hp.2.trans hv.symm)]

theorem atVersion_eq_none {t : Table} {id : KeyID} {v : Int} :
    t.atVersion id v = none ↔ ∀ r ∈ t.rows, r.id = id → r.version ≠ v := by
  simp [atVersion, List.find?_eq_none]

theorem mem_of_requested {t : Table} {id : KeyID} {v : Int} {r : Row}
    (h : t.requested id v = some r) : r ∈ t.rows ∧ r.id = id := by
  unfold requested at h
  split at h
  · obtain ⟨hmem, hid, -⟩ := atVersion_eq_some.mp h
    exact ⟨hmem, hid⟩
  · obtain ⟨hmem, hid, -⟩ := latest_eq_some.mp h
    exact ⟨hmem, hid⟩

/-- What is read of an id depends on its own rows only. -/
theorem requested_congr {t t' : Table} {id : KeyID} (h : t'.versionsOf id = t.versionsOf id)
    (v : Int) : t'.requested id v = t.requested id v := by
  have hmem : ∀ r, r.id = id → (r ∈ t'.rows ↔ r ∈ t.rows) := by
    intro r hid
    have hiff : r ∈ t'.versionsOf id ↔ r ∈ t.versionsOf id := by rw [h]
    simpa [mem_versionsOf, hid] using hiff
  unfold requested
  split
  · cases ht : t.atVersion id v with
    | none =>
      refine atVersion_eq_none.mpr fun r hr hid => ?_
      exact atVersion_eq_none.mp ht r ((hmem r hid).mp hr) hid
    | some r =>
      obtain ⟨hr, hid, hv⟩ := atVersion_eq_some.mp ht
      exact atVersion_eq_some.mpr ⟨(hmem r hid).mpr hr, hid, hv⟩
  · simp only [latest, h]

theorem mem_selectBatch {t : Table} {ids : List KeyID} {r : Row} :
    r ∈ t.selectBatch ids ↔ r ∈ t.rows ∧ r.id ∈ ids := by
  simp [selectBatch, List.mem_insertionSort]

/-- The rows of a batch come by id and, for one id, from the newest to the oldest. -/
theorem pairwise_selectBatch (t : Table) (ids : List KeyID) :
    (t.selectBatch ids).Pairwise IdVersionDesc := by
  have htotal : Std.Total IdVersionDesc := ⟨fun a b => by
    rcases Nat.lt_trichotomy a.id.value.toNat b.id.value.toNat with h | h | h
    · exact .inl (.inl h)
    · have hid : a.id = b.id := KeyID.ext (BitVec.eq_of_toNat_eq h)
      rcases le_total b.version a.version with hv | hv
      · exact .inl (.inr ⟨hid, hv⟩)
      · exact .inr (.inr ⟨hid.symm, hv⟩)
    · exact .inr (.inl h)⟩
  have htrans : IsTrans Row IdVersionDesc := ⟨fun a b c hab hbc => by
    rcases hab with hab | ⟨hid, hv⟩
    · rcases hbc with hbc | ⟨hid', -⟩
      · exact .inl (BitVec.lt_trans hab hbc)
      · exact .inl (hid' ▸ hab)
    · rcases hbc with hbc | ⟨hid', hv'⟩
      · exact .inl (hid ▸ hbc)
      · exact .inr ⟨hid.trans hid', hv'.trans hv⟩⟩
  exact List.pairwise_insertionSort _ _

/-! ## 3. Updates and inserts -/

/-- `UPDATE`: rewrite the rows, leaving the key columns alone. -/
def mapRows (t : Table) (f : Row → Row) (hf : ∀ r, (f r).key = r.key) : Table where
  rows := t.rows.map f
  primaryKey := by
    have h : (t.rows.map f).map Row.key = t.rows.map Row.key := by
      simp [List.map_map, Function.comp_def, hf]
    rw [h]
    exact t.primaryKey

/-- `INSERT` or `COPY`: all the rows or, when the primary key is violated, none. -/
def insert (t : Table) (new : List Row) : Option Table :=
  if h : ((t.rows ++ new).map Row.key).Nodup then some ⟨t.rows ++ new, h⟩ else none

theorem insert_eq_some {t t' : Table} {new : List Row} (h : t.insert new = some t') :
    t'.rows = t.rows ++ new := by
  unfold insert at h
  split at h
  · cases h
    rfl
  · cases h

/-- One row goes in exactly when its key is free. -/
theorem insert_singleton {t : Table} {r : Row} :
    (∃ t', t.insert [r] = some t') ↔ t.atVersion r.id r.version = none := by
  have hiff : ((t.rows ++ [r]).map Row.key).Nodup ↔ t.atVersion r.id r.version = none := by
    rw [atVersion_eq_none, List.map_append, List.nodup_append]
    simp only [t.primaryKey, List.map_cons, List.map_nil, List.nodup_singleton, true_and,
      List.mem_map, List.mem_singleton, forall_exists_index, and_imp, forall_apply_eq_imp_iff₂,
      forall_eq, Row.key, ne_eq, Prod.mk.injEq, not_and]
  rw [← hiff]
  unfold insert
  constructor
  · rintro ⟨t', h⟩
    split at h
    · assumption
    · cases h
  · intro h
    exact ⟨_, dif_pos h⟩

section MapRows

variable {t : Table} {f : Row → Row} {hf : ∀ r, (f r).key = r.key}

theorem mapRows_id (hf : ∀ r, (f r).key = r.key) (r : Row) : (f r).id = r.id :=
  congrArg Prod.fst (hf r)

theorem mapRows_version (hf : ∀ r, (f r).key = r.key) (r : Row) : (f r).version = r.version :=
  congrArg Prod.snd (hf r)

theorem mem_mapRows {r : Row} : r ∈ (t.mapRows f hf).rows ↔ ∃ r₀ ∈ t.rows, f r₀ = r :=
  List.mem_map

/-- An update does not change which row is the latest. -/
theorem latest_mapRows (id : KeyID) : (t.mapRows f hf).latest id = (t.latest id).map f := by
  cases h : t.latest id with
  | none =>
    rw [latest_eq_none] at h
    simp only [Option.map_none, latest_eq_none, mem_mapRows]
    rintro _ ⟨r₀, hr₀, rfl⟩
    rw [mapRows_id hf]
    exact h r₀ hr₀
  | some m =>
    obtain ⟨hmem, hid, hmax⟩ := latest_eq_some.mp h
    simp only [Option.map_some, latest_eq_some, mem_mapRows]
    refine ⟨⟨m, hmem, rfl⟩, (mapRows_id hf m).trans hid, ?_⟩
    rintro _ ⟨r₀, hr₀, rfl⟩ hid₀
    rw [mapRows_id hf] at hid₀
    rw [mapRows_version hf, mapRows_version hf]
    exact hmax r₀ hr₀ hid₀

theorem atVersion_mapRows (id : KeyID) (v : Int) :
    (t.mapRows f hf).atVersion id v = (t.atVersion id v).map f := by
  cases h : t.atVersion id v with
  | none =>
    rw [atVersion_eq_none] at h
    simp only [Option.map_none, atVersion_eq_none, mem_mapRows]
    rintro _ ⟨r₀, hr₀, rfl⟩ hid
    rw [mapRows_version hf]
    exact h r₀ hr₀ ((mapRows_id hf r₀).symm.trans hid)
  | some r =>
    obtain ⟨hmem, hid, hv⟩ := atVersion_eq_some.mp h
    simp only [Option.map_some, atVersion_eq_some, mem_mapRows]
    exact ⟨⟨r, hmem, rfl⟩, (mapRows_id hf r).trans hid, (mapRows_version hf r).trans hv⟩

end MapRows

theorem versionsOf_mapRows {t : Table} {f : Row → Row} {hf : ∀ r, (f r).key = r.key} {id : KeyID}
    (h : ∀ r, r.id = id → f r = r) : (t.mapRows f hf).versionsOf id = t.versionsOf id := by
  have hrows : ∀ rows : List Row, (rows.map f).filter (fun r => decide (r.id = id))
      = rows.filter fun r => decide (r.id = id) := by
    intro rows
    induction rows with
    | nil => rfl
    | cons r rows ih =>
      by_cases hid : r.id = id
      · simp [h r hid, hid, ih]
      · simp [mapRows_id hf r, hid, ih]
  exact hrows t.rows

/-- `WHERE id = $1 AND version = (SELECT MAX(version) FROM keys WHERE id = $1)`. -/
def IsNewest (t : Table) (id : KeyID) (r : Row) : Prop :=
  r.id = id ∧ t.maxVersion id = some r.version

instance (t : Table) (id : KeyID) : DecidablePred (t.IsNewest id) := fun r =>
  inferInstanceAs (Decidable (r.id = id ∧ t.maxVersion id = some r.version))

/-- `StmtUpdateMetadata`: metadata and update time of the newest row. -/
def updateMetadata (t : Table) (id : KeyID) (metadata : Option KeyMetadata) (now : Time) : Table :=
  t.mapRows (fun r => if t.IsNewest id r then { r with metadata := metadata, updatedAt := now }
    else r) fun r => by split <;> rfl

/-- `StmtRevokeKey`, `StmtRevokeBatchKeys`: every row of the ids. -/
def revoke (t : Table) (ids : List KeyID) (now : Time) : Table :=
  t.mapRows (fun r => if r.id ∈ ids then { r with status := .revoked, revokedAt := some now }
    else r) fun r => by split <;> rfl

/-- The `old_key` part of the rotation query: the newest row becomes rotated. -/
def markRotated (t : Table) (id : KeyID) (now : Time) : Table :=
  t.mapRows (fun r => if t.IsNewest id r then { r with status := .rotated, updatedAt := now }
    else r) fun r => by split <;> rfl

/-- The newest row is the latest one. -/
theorem isNewest_iff_latest {t : Table} {id : KeyID} {r : Row} (hr : r ∈ t.rows) :
    t.IsNewest id r ↔ t.latest id = some r := by
  constructor
  · rintro ⟨hid, hmax⟩
    obtain ⟨m, hm, hv⟩ := Option.map_eq_some_iff.mp hmax
    obtain ⟨hmem, hmid, -⟩ := latest_eq_some.mp hm
    rw [hm, t.row_unique hmem hr (hmid.trans hid.symm) hv]
  · intro h
    exact ⟨(latest_eq_some.mp h).2.1, by simp [maxVersion, h]⟩

/-- What a metadata update leaves as the latest row. -/
theorem latest_updateMetadata (t : Table) (id : KeyID)
    (metadata : Option KeyMetadata) (now : Time) :
    (t.updateMetadata id metadata now).latest id =
      (t.latest id).map fun r => { r with metadata := metadata, updatedAt := now } := by
  rw [updateMetadata, latest_mapRows]
  cases h : t.latest id with
  | none => rfl
  | some r =>
    have hnew : t.IsNewest id r := (isNewest_iff_latest (latest_eq_some.mp h).1).mpr h
    simp [hnew]

end Table

end Polykey
