/-
# The caching repository

`CachedRepository` wraps a repository.  It keeps keys it has read in a TTL cache, under one cache
key for the latest version and one for each version by number, and an index from the text of an id
to the cache keys of that id.  A write that succeeds deletes the entries of the ids it names, but
not every write does: the two batch writes go straight to the wrapped repository.

Three things keep the cache from being transparent, and `cachedRepository_transparent` is the
result for the runs that avoid them:

* a batch write leaves the entries of its ids in the cache;
* version 0 is the cache key of the latest version, while the repository refuses it;
* metadata is read from a cached key as it is, while the repository turns a JSON `null` into the
  zero message.

Everything else is shown to work, for any passage of time and any cleanup: every entry is indexed
(`Indexed`), and every entry that has not expired is what the repository would return (`Valid`).
-/
import Mathlib
import Polykey.Cache.Generic
import Polykey.Domain.Uuid
import Polykey.Persistence.PSQLAdapter

namespace Polykey

/-! ## 1. The cache and its index -/

/-- `CachedRepository`, the wrapped repository apart: the cache, and the cache keys of each id by
the text of the id. -/
structure CachedRepository where
  cache : Cache String Key
  cacheIndex : AList fun _ : String => List String

namespace CachedRepository

def defaultCacheTTL : Duration := 2 * minute

/-- `NewCachedRepository`. -/
def new : CachedRepository := ⟨.new String Key defaultCacheTTL, ∅⟩

/-- `CachedRepository.getCacheKey`. -/
def getCacheKey (uuid : UUIDPkg) (id : KeyID) (version : Int) : String :=
  id.string uuid ++ if version = 0 then ":latest" else ":v" ++ toString version

/-- The index's entry for a text. -/
def cacheKeys (index : AList fun _ : String => List String) (keyIDStr : String) : List String :=
  (index.lookup keyIDStr).getD []

/-- `CachedRepository.onCacheEvict`, for a pair that the cache has removed. -/
def onCacheEvict (uuid : UUIDPkg) (index : AList fun _ : String => List String)
    (entry : String × Key) : AList fun _ : String => List String :=
  match index.lookup (entry.2.id.string uuid) with
  | none => index
  | some keys =>
    if keys.erase entry.1 = [] then index.erase (entry.2.id.string uuid)
    else index.insert (entry.2.id.string uuid) (keys.erase entry.1)

/-- A removal from the cache, with the callback for each pair removed. -/
def evict (uuid : UUIDPkg) (cr : CachedRepository)
    (removal : Cache String Key × List (String × Key)) : CachedRepository :=
  ⟨removal.1, removal.2.foldl (onCacheEvict uuid) cr.cacheIndex⟩

/-- `CachedRepository.storeInCache`. -/
def storeInCache (uuid : UUIDPkg) (now : Time) (cr : CachedRepository) (cacheKey : String)
    (k : Key) : CachedRepository where
  cache := cr.cache.set now cacheKey k 0
  cacheIndex := cr.cacheIndex.insert (k.id.string uuid)
    ((cacheKeys cr.cacheIndex (k.id.string uuid)).insert cacheKey)

/-- The deletions of `invalidateCache`, in the order the index gives. -/
def deleteAll (uuid : UUIDPkg) (cr : CachedRepository) (keysToDel : List String) :
    CachedRepository :=
  keysToDel.foldl (fun cr cacheKey => cr.evict uuid (cr.cache.delete cacheKey)) cr

/-- `CachedRepository.invalidateCache`. -/
def invalidateCache (uuid : UUIDPkg) (cr : CachedRepository) (id : KeyID) : CachedRepository :=
  cr.deleteAll uuid (cacheKeys cr.cacheIndex (id.string uuid))

end CachedRepository

open CachedRepository

/-! ## 2. Calls -/

/-- The caching repository and the table behind it, at some time. -/
structure CachedStore where
  repo : CachedRepository
  table : Table
  clock : Time

namespace CachedStore

def new (table : Table) (clock : Time) : CachedStore := ⟨.new, table, clock⟩

/-- `GetKey` and `GetKeyByVersion`: an entry if there is one, else what the wrapped repository
returns, which is stored. -/
def fetch (uuid : UUIDPkg) (now later : Time) (cacheKey : String) (wrapped : Except Err Key)
    (st : CachedStore) : Except Err Key × CachedStore :=
  match st.repo.cache.get now cacheKey with
  | some key => (.ok key, { st with clock := later })
  | none =>
    match wrapped with
    | .error e => (.error e, { st with clock := later })
    | .ok key =>
      (.ok key, { st with repo := st.repo.storeInCache uuid later cacheKey key, clock := later })

/-- `GetKeyMetadata` and `GetKeyMetadataByVersion`: nothing is stored. -/
def fetchMetadata (now later : Time) (cacheKey : String)
    (wrapped : Except Err (Option KeyMetadata)) (st : CachedStore) :
    Except Err (Option KeyMetadata) × CachedStore :=
  match st.repo.cache.get now cacheKey with
  | some key => (.ok key.metadata, { st with clock := later })
  | none => (wrapped, { st with clock := later })

/-- The ids whose entries a call deletes when it succeeds; the batch writes delete none. -/
def invalidated : RepoOp → List KeyID
  | .createKey key => key.toList.map (·.id)
  | .createBatchKeys keys => keys.map (·.id)
  | .updateKeyMetadata id _ | .rotateKey id _ | .revokeKey id => [id]
  | _ => []

/-- Every other call: the wrapped repository, and the invalidation. -/
def passThrough (uuid : UUIDPkg) (now later : Time) (op : RepoOp) (st : CachedStore) :
    op.Answer × CachedStore :=
  let out := PSQLAdapter.exec uuid now op st.table
  let repo := if out.1.isOk then (invalidated op).foldl (invalidateCache uuid) st.repo else st.repo
  (out.1, ⟨repo, out.2, later⟩)

/-- A call through the cache.  It looks into the cache and calls the wrapped repository at `now`,
and stores what it read at `later`. -/
def call (uuid : UUIDPkg) (now later : Time) : (op : RepoOp) → CachedStore → op.Answer × CachedStore
  | .getKey id, st =>
    st.fetch uuid now later (getCacheKey uuid id 0) (PSQLAdapter.getKey st.table id)
  | .getKeyByVersion id v, st =>
    st.fetch uuid now later (getCacheKey uuid id v) (PSQLAdapter.getKeyByVersion st.table id v)
  | .getKeyMetadata id, st =>
    st.fetchMetadata now later (getCacheKey uuid id 0) (PSQLAdapter.getKeyMetadata st.table id)
  | .getKeyMetadataByVersion id v, st =>
    st.fetchMetadata now later (getCacheKey uuid id v)
      (PSQLAdapter.getKeyMetadataByVersion st.table id v)
  | .exists id, st =>
    match st.repo.cache.get now (getCacheKey uuid id 0) with
    | some _ => (.ok true, { st with clock := later })
    | none => (.ok (PSQLAdapter.exists st.table id), { st with clock := later })
  | op, st => st.passThrough uuid now later op

/-- One pass of the cache's cleanup loop. -/
def cleanup (uuid : UUIDPkg) (now : Time) (st : CachedStore) : CachedStore :=
  { st with repo := st.repo.evict uuid (st.repo.cache.deleteExpired now), clock := now }

/-- The steps of a sequential run: a call that meets a condition, or a cleanup.  The clock does not
go back. -/
inductive Step (uuid : UUIDPkg) (cond : CachedStore → Time → RepoOp → Prop) :
    CachedStore → CachedStore → Prop
  | call {st : CachedStore} {op : RepoOp} {now later : Time} (hnow : st.clock ≤ now)
      (hlater : now ≤ later) (hcond : cond st now op) :
      Step uuid cond st (st.call uuid now later op).2
  | cleanup {st : CachedStore} {now : Time} (hnow : st.clock ≤ now) :
      Step uuid cond st (st.cleanup uuid now)

end CachedStore

/-! ## 3. Cache keys -/

/-- The cache key determines the id and the version. -/
theorem getCacheKey_injective {uuid : UUIDPkg} {id id' : KeyID} {v v' : Int}
    (h : getCacheKey uuid id v = getCacheKey uuid id' v') : id = id' ∧ v = v' := by
  unfold getCacheKey at h
  have hchars := congrArg String.toList h
  simp only [String.toList_append] at hchars
  have hlen : (id.string uuid).toList.length = (id'.string uuid).toList.length := by
    rw [String.length_toList, String.length_toList]
    exact (uuid.length_text _).trans (uuid.length_text _).symm
  obtain ⟨hid, hv⟩ := List.append_inj hchars hlen
  refine ⟨KeyID.string_injective uuid (String.toList_inj.mp hid), ?_⟩
  rw [String.toList_inj] at hv
  -- the text of a version does not start with an `l`
  by_cases h0 : v = 0 <;> by_cases h0' : v' = 0
  · rw [h0, h0']
  · rw [if_pos h0, if_neg h0'] at hv
    have := congrArg (fun s => s.toList[1]?) hv
    simp at this
  · rw [if_neg h0, if_pos h0'] at hv
    have := congrArg (fun s => s.toList[1]?) hv
    simp at this
  · rw [if_neg h0, if_neg h0', String.append_right_inj] at hv
    exact Int.repr_injective hv

/-! ## 4. Every entry is indexed

Half of what an invalidation needs: an entry that is not in the index would survive it. The
callback may remove from the index only what has left the cache. -/

namespace CachedRepository

variable {uuid : UUIDPkg} {cr : CachedRepository}

/-- Every entry's cache key is in the index, under the id of the key it holds. -/
def Indexed (uuid : UUIDPkg) (cr : CachedRepository) : Prop :=
  ∀ cacheKey i, cr.cache.items.lookup cacheKey = some i →
    cacheKey ∈ cacheKeys cr.cacheIndex (i.value.id.string uuid)

section Index

variable {index : AList fun _ : String => List String} {keyIDStr keyIDStr' : String}

theorem cacheKeys_of_lookup {keys : List String} (h : index.lookup keyIDStr = some keys) :
    cacheKeys index keyIDStr = keys := by rw [cacheKeys, h, Option.getD_some]

theorem cacheKeys_insert_self (keys : List String) :
    cacheKeys (index.insert keyIDStr keys) keyIDStr = keys :=
  cacheKeys_of_lookup (AList.lookup_insert _)

theorem cacheKeys_insert_ne (keys : List String) (h : keyIDStr' ≠ keyIDStr) :
    cacheKeys (index.insert keyIDStr keys) keyIDStr' = cacheKeys index keyIDStr' := by
  rw [cacheKeys, AList.lookup_insert_ne h, cacheKeys]

theorem cacheKeys_erase_ne (h : keyIDStr' ≠ keyIDStr) :
    cacheKeys (index.erase keyIDStr) keyIDStr' = cacheKeys index keyIDStr' := by
  rw [cacheKeys, AList.lookup_erase_ne h, cacheKeys]

end Index

/-- The callback for one cache key leaves the others in the index. -/
theorem mem_onCacheEvict {index : AList fun _ : String => List String} {entry : String × Key}
    {cacheKey keyIDStr : String} (hmem : cacheKey ∈ cacheKeys index keyIDStr)
    (hne : cacheKey ≠ entry.1) : cacheKey ∈ cacheKeys (onCacheEvict uuid index entry) keyIDStr := by
  unfold onCacheEvict
  cases hlookup : index.lookup (entry.2.id.string uuid) with
  | none => exact hmem
  | some keys =>
    by_cases hid : keyIDStr = entry.2.id.string uuid
    · rw [hid, cacheKeys_of_lookup hlookup] at hmem
      have hrest : cacheKey ∈ keys.erase entry.1 := (List.mem_erase_of_ne hne).mpr hmem
      simp only [List.ne_nil_of_mem hrest, if_false]
      rw [hid, cacheKeys_insert_self]
      exact hrest
    · simp only
      split
      · rw [cacheKeys_erase_ne hid]
        exact hmem
      · rw [cacheKeys_insert_ne _ hid]
        exact hmem

theorem mem_foldl_onCacheEvict {evicted : List (String × Key)} {cacheKey keyIDStr : String}
    (hne : ∀ e ∈ evicted, cacheKey ≠ e.1) {index : AList fun _ : String => List String}
    (hmem : cacheKey ∈ cacheKeys index keyIDStr) :
    cacheKey ∈ cacheKeys (evicted.foldl (onCacheEvict uuid) index) keyIDStr := by
  induction evicted generalizing index with
  | nil => exact hmem
  | cons e evicted ih =>
    exact ih (fun e' he' => hne e' (by simp [he'])) (mem_onCacheEvict hmem (hne e (by simp)))

/-- A removal keeps the index right if it removes what it reports and nothing else goes. -/
theorem Indexed.evict (h : Indexed uuid cr) {removal : Cache String Key × List (String × Key)}
    (hsub : ∀ cacheKey i, removal.1.items.lookup cacheKey = some i →
      cr.cache.items.lookup cacheKey = some i ∧ ∀ e ∈ removal.2, cacheKey ≠ e.1) :
    Indexed uuid (cr.evict uuid removal) := by
  intro cacheKey i hlookup
  obtain ⟨hold, hne⟩ := hsub cacheKey i hlookup
  exact mem_foldl_onCacheEvict hne (h cacheKey i hold)

theorem Indexed.delete (h : Indexed uuid cr) (cacheKey : String) :
    Indexed uuid (cr.evict uuid (cr.cache.delete cacheKey)) := by
  refine h.evict fun cacheKey' i hlookup => ?_
  have hne : cacheKey' ≠ cacheKey := by
    rintro rfl
    rw [Cache.lookup_delete_self] at hlookup
    cases hlookup
  rw [Cache.lookup_delete_ne _ hne] at hlookup
  refine ⟨hlookup, fun e he => ?_⟩
  unfold Cache.delete at he
  split at he
  · cases he
  · rw [List.mem_singleton.mp he]
    exact hne

/-- What is left after some deletions. -/
theorem lookup_deleteAll (cr : CachedRepository) (keysToDel : List String) (cacheKey : String) :
    (cr.deleteAll uuid keysToDel).cache.items.lookup cacheKey
      = if cacheKey ∈ keysToDel then none else cr.cache.items.lookup cacheKey := by
  induction keysToDel generalizing cr with
  | nil => simp [deleteAll]
  | cons k ks ih =>
    refine (ih (cr.evict uuid (cr.cache.delete k))).trans ?_
    by_cases hk : cacheKey = k
    · subst hk
      simp [CachedRepository.evict, Cache.lookup_delete_self]
    · simp [CachedRepository.evict, Cache.lookup_delete_ne _ hk, hk]

theorem Indexed.deleteAll (h : Indexed uuid cr) (keysToDel : List String) :
    Indexed uuid (cr.deleteAll uuid keysToDel) := by
  induction keysToDel generalizing cr with
  | nil => exact h
  | cons k ks ih => exact ih (h.delete k)

theorem Indexed.cleanup (h : Indexed uuid cr) (now : Time) :
    Indexed uuid (cr.evict uuid (cr.cache.deleteExpired now)) := by
  refine h.evict fun cacheKey i hlookup => ?_
  obtain ⟨hold, hlive⟩ := (Cache.lookup_deleteExpired _ _ _ _).mp hlookup
  refine ⟨hold, ?_⟩
  rintro ⟨k, v⟩ he rfl
  -- what was removed had expired
  simp only [Cache.deleteExpired, List.mem_map, List.mem_filter] at he
  obtain ⟨⟨k', i'⟩, ⟨hmem, hexp⟩, hpair⟩ := he
  obtain ⟨rfl, rfl⟩ := Prod.mk.inj hpair
  have hold' : cr.cache.items.lookup k' = some i' := AList.mem_lookup_iff.mpr hmem
  rw [hold] at hold'
  cases hold'
  rw [hlive] at hexp
  cases hexp

theorem Indexed.storeInCache (h : Indexed uuid cr) (now : Time) (cacheKey : String) (k : Key) :
    Indexed uuid (cr.storeInCache uuid now cacheKey k) := by
  intro cacheKey' i hlookup
  by_cases hk : cacheKey' = cacheKey
  · subst hk
    have hi : i.value = k := by
      rw [CachedRepository.storeInCache, Cache.lookup_set_self] at hlookup
      cases hlookup
      exact Cache.makeItem_value _ _ _ _
    rw [hi, CachedRepository.storeInCache, cacheKeys_insert_self]
    exact List.mem_insert_self
  · rw [CachedRepository.storeInCache, Cache.lookup_set_ne _ _ _ _ hk] at hlookup
    have hmem := h cacheKey' i hlookup
    by_cases hid : i.value.id.string uuid = k.id.string uuid
    · rw [hid] at hmem ⊢
      rw [CachedRepository.storeInCache, cacheKeys_insert_self]
      exact List.mem_insert_of_mem hmem
    · rw [CachedRepository.storeInCache, cacheKeys_insert_ne _ hid]
      exact hmem

/-- After an invalidation the id has no entry, and nothing new is there. -/
theorem lookup_invalidateCache (h : Indexed uuid cr) {id : KeyID} {cacheKey : String}
    {i : Cache.Item Key}
    (hlookup : (cr.invalidateCache uuid id).cache.items.lookup cacheKey = some i) :
    cr.cache.items.lookup cacheKey = some i ∧ i.value.id ≠ id := by
  rw [CachedRepository.invalidateCache, lookup_deleteAll] at hlookup
  split at hlookup
  · cases hlookup
  · rename_i hnot
    refine ⟨hlookup, ?_⟩
    rintro rfl
    exact hnot (h cacheKey i hlookup)

/-- The invalidation of several ids. -/
theorem lookup_invalidateAll (h : Indexed uuid cr) (ids : List KeyID) :
    Indexed uuid (ids.foldl (CachedRepository.invalidateCache uuid) cr) ∧
    ∀ cacheKey i, (ids.foldl (CachedRepository.invalidateCache uuid) cr).cache.items.lookup cacheKey
        = some i → cr.cache.items.lookup cacheKey = some i ∧ i.value.id ∉ ids := by
  induction ids generalizing cr with
  | nil => exact ⟨h, fun _ _ hlookup => ⟨hlookup, List.not_mem_nil⟩⟩
  | cons id ids ih =>
    have hfirst : Indexed uuid (cr.invalidateCache uuid id) := h.deleteAll _
    obtain ⟨hindexed, hrest⟩ := ih hfirst
    refine ⟨hindexed, fun cacheKey i hlookup => ?_⟩
    obtain ⟨hmid, hnot⟩ := hrest cacheKey i hlookup
    obtain ⟨hold, hne⟩ := lookup_invalidateCache h hmid
    exact ⟨hold, by simp [hne, hnot]⟩

end CachedRepository

/-! ## 5. Every entry that has not expired is what the repository would return

What makes a hit right. An entry stays valid while time passes and while writes go to other ids;
a write to its own id has to remove it. -/

namespace CachedStore

variable {uuid : UUIDPkg} {st : CachedStore} {now later : Time}

/-- Every entry stands under the cache key of an id and a version, and until it expires it is the
row that is read for them. -/
def Valid (uuid : UUIDPkg) (st : CachedStore) : Prop :=
  ∀ cacheKey i, st.repo.cache.items.lookup cacheKey = some i →
    ∃ v, 0 ≤ v ∧ cacheKey = getCacheKey uuid i.value.id v ∧
      (i.expired st.clock = false → (st.table.requested i.value.id v).map Row.scan = some i.value)

/-- A hit is the row that is read for the id and the version. -/
theorem Valid.get (h : Valid uuid st) (hnow : st.clock ≤ now) {id : KeyID} {v : Int} {key : Key}
    (hget : st.repo.cache.get now (getCacheKey uuid id v) = some key) :
    0 ≤ v ∧ ∃ r, st.table.requested id v = some r ∧ r.scan = key := by
  obtain ⟨i, hlookup, hlive, rfl⟩ := Cache.get_eq_some.mp hget
  obtain ⟨v', hv', hkey, hrow⟩ := h _ i hlookup
  obtain ⟨rfl, rfl⟩ := getCacheKey_injective hkey
  exact ⟨hv', Option.map_eq_some_iff.mp (hrow (Cache.Item.live_of_later hnow hlive))⟩

/-- Fewer entries, later. -/
theorem Valid.sub (h : Valid uuid st) {repo' : CachedRepository} {clock' : Time}
    (hclock : st.clock ≤ clock')
    (hsub : ∀ cacheKey i, repo'.cache.items.lookup cacheKey = some i →
      st.repo.cache.items.lookup cacheKey = some i) : Valid uuid ⟨repo', st.table, clock'⟩ := by
  intro cacheKey i hlookup
  obtain ⟨v, hv, hkey, hrow⟩ := h cacheKey i (hsub cacheKey i hlookup)
  exact ⟨v, hv, hkey, fun hlive => hrow (Cache.Item.live_of_later hclock hlive)⟩

/-- A write, when no entry that is left and has not expired is of an id it touches. -/
theorem Valid.change (h : Valid uuid st) {repo' : CachedRepository} {t' : Table} {clock' : Time}
    {op : RepoOp} (hchange : PSQLAdapter.Change now op st.table t') (hclock : st.clock ≤ clock')
    (hsub : ∀ cacheKey i, repo'.cache.items.lookup cacheKey = some i →
      st.repo.cache.items.lookup cacheKey = some i ∧
        (i.expired clock' = false → i.value.id ∉ op.touched)) : Valid uuid ⟨repo', t', clock'⟩ := by
  intro cacheKey i hlookup
  obtain ⟨hold, huntouched⟩ := hsub cacheKey i hlookup
  obtain ⟨v, hv, hkey, hrow⟩ := h cacheKey i hold
  refine ⟨v, hv, hkey, fun hlive => ?_⟩
  rw [Table.requested_congr (hchange.versionsOf (huntouched hlive))]
  exact hrow (Cache.Item.live_of_later hclock hlive)

/-- A new entry. -/
theorem Valid.store (h : Valid uuid st) (hclock : st.clock ≤ later) {k : Key} {v : Int}
    (hv : 0 ≤ v) (hrow : (st.table.requested k.id v).map Row.scan = some k) :
    Valid uuid ⟨st.repo.storeInCache uuid later (getCacheKey uuid k.id v) k, st.table, later⟩ := by
  intro cacheKey i hlookup
  by_cases hk : cacheKey = getCacheKey uuid k.id v
  · subst hk
    have hi : i.value = k := by
      rw [CachedRepository.storeInCache, Cache.lookup_set_self] at hlookup
      cases hlookup
      exact Cache.makeItem_value _ _ _ _
    rw [hi]
    exact ⟨v, hv, rfl, fun _ => hrow⟩
  · rw [CachedRepository.storeInCache, Cache.lookup_set_ne _ _ _ _ hk] at hlookup
    exact h.sub hclock (fun _ _ hold => hold) cacheKey i hlookup

/-! ## 6. Runs

`Permitted` lists what a call has to avoid in the state it finds, one clause for each of the
three traps. Under it the two invariants are kept and the answers agree. -/

/-- What a call has to avoid, in the state it finds. -/
structure Permitted (uuid : UUIDPkg) (st : CachedStore) (now : Time) (op : RepoOp) : Prop where
  /-- an id that is written and not invalidated has no entry -/
  write : ∀ id ∈ op.touched, id ∉ invalidated op →
    ∀ v, st.repo.cache.get now (getCacheKey uuid id v) = none
  /-- version 0 is not asked for while the latest version is cached -/
  version : ∀ id, op = .getKeyByVersion id 0 ∨ op = .getKeyMetadataByVersion id 0 →
    st.repo.cache.get now (getCacheKey uuid id 0) = none
  /-- metadata is not read from a key that has none -/
  metadata : ∀ id v, op = .getKeyMetadata id ∧ v = 0 ∨ op = .getKeyMetadataByVersion id v →
    ∀ key, st.repo.cache.get now (getCacheKey uuid id v) = some key → key.metadata ≠ none

/-- The invariant of a run. -/
structure Fresh (uuid : UUIDPkg) (st : CachedStore) : Prop where
  indexed : Indexed uuid st.repo
  valid : Valid uuid st

theorem fresh_new (uuid : UUIDPkg) (t : Table) (clock : Time) : Fresh uuid (new t clock) :=
  ⟨fun _ _ h => (by cases h), fun _ _ h => (by cases h)⟩

theorem Fresh.wait (h : Fresh uuid st) (hclock : st.clock ≤ later) :
    Fresh uuid { st with clock := later } :=
  ⟨h.indexed, h.valid.sub hclock fun _ _ hold => hold⟩

theorem Fresh.fetch (h : Fresh uuid st) (hclock : st.clock ≤ later) {id : KeyID} {v : Int}
    {wrapped : Except Err Key} (hwrapped : ∀ key, wrapped = .ok key →
      0 ≤ v ∧ ∃ r, st.table.requested id v = some r ∧ r.scan = key) :
    Fresh uuid (st.fetch uuid now later (getCacheKey uuid id v) wrapped).2 := by
  unfold CachedStore.fetch
  split
  · exact h.wait hclock
  · cases wrapped with
    | error e => exact h.wait hclock
    | ok key =>
      obtain ⟨hv, r, hrow, rfl⟩ := hwrapped key rfl
      have hid : r.scan.id = id := (Table.mem_of_requested hrow).2
      have hstore := h.valid.store (k := r.scan) hclock hv (by rw [hid, hrow]; rfl)
      rw [hid] at hstore
      exact ⟨h.indexed.storeInCache _ _ _, hstore⟩

theorem Fresh.fetchMetadata (h : Fresh uuid st) (hclock : st.clock ≤ later) (cacheKey : String)
    (wrapped : Except Err (Option KeyMetadata)) :
    Fresh uuid (st.fetchMetadata now later cacheKey wrapped).2 := by
  unfold CachedStore.fetchMetadata
  split <;> exact h.wait hclock

theorem Fresh.passThrough (h : Fresh uuid st) (hnow : st.clock ≤ now) (hlater : now ≤ later)
    {op : RepoOp} (hop : Permitted uuid st now op) :
    Fresh uuid (st.passThrough uuid now later op).2 := by
  have hclock : st.clock ≤ later := hnow.trans hlater
  unfold CachedStore.passThrough
  cases hexec : PSQLAdapter.exec uuid now op st.table with
  | mk r t' =>
    cases r with
    | error e =>
      rw [PSQLAdapter.exec_error hexec]
      exact h.wait hclock
    | ok a =>
      obtain ⟨hindexed, hsub⟩ := lookup_invalidateAll h.indexed (invalidated op)
      refine ⟨hindexed, h.valid.change (PSQLAdapter.exec_change hexec) hclock ?_⟩
      intro cacheKey i hlookup
      obtain ⟨hold, hnot⟩ := hsub cacheKey i hlookup
      refine ⟨hold, fun hlive htouched => ?_⟩
      -- an entry that is left, of an id the call touches, would have been there at the call
      obtain ⟨v, -, rfl, -⟩ := h.valid cacheKey i hold
      have hget : st.repo.cache.get now (getCacheKey uuid i.value.id v) = some i.value :=
        Cache.get_eq_some.mpr ⟨i, hold, Cache.Item.live_of_later hlater hlive, rfl⟩
      rw [hop.write _ htouched hnot v] at hget
      cases hget

/-- **The step lemma.** -/
theorem Fresh.call (h : Fresh uuid st) (hnow : st.clock ≤ now) (hlater : now ≤ later) {op : RepoOp}
    (hop : Permitted uuid st now op) : Fresh uuid (st.call uuid now later op).2 := by
  have hclock : st.clock ≤ later := hnow.trans hlater
  cases op with
  | getKey id =>
    refine h.fetch hclock fun key hkey => ⟨le_refl 0, ?_⟩
    rw [PSQLAdapter.getKey_eq] at hkey
    cases hrow : st.table.requested id 0 with
    | none => rw [hrow] at hkey; cases hkey
    | some r => rw [hrow] at hkey; cases hkey; exact ⟨r, rfl, rfl⟩
  | getKeyByVersion id v =>
    refine h.fetch hclock fun key hkey => ?_
    by_cases hv : 0 < v
    · rw [PSQLAdapter.getKeyByVersion_eq _ _ hv] at hkey
      cases hrow : st.table.requested id v with
      | none => rw [hrow] at hkey; cases hkey
      | some r => rw [hrow] at hkey; cases hkey; exact ⟨hv.le, r, rfl, rfl⟩
    · rw [PSQLAdapter.getKeyByVersion, if_pos (by omega)] at hkey
      cases hkey
  | getKeyMetadata id => exact h.fetchMetadata hclock _ _
  | getKeyMetadataByVersion id v => exact h.fetchMetadata hclock _ _
  | «exists» id =>
    simp only [CachedStore.call]
    split <;> exact h.wait hclock
  | _ => exact h.passThrough hnow hlater hop

theorem Fresh.step {st' : CachedStore} (h : Fresh uuid st)
    (hstep : Step uuid (Permitted uuid) st st') : Fresh uuid st' := by
  cases hstep with
  | call hnow hlater hop => exact h.call hnow hlater hop
  | cleanup hnow =>
    refine ⟨h.indexed.cleanup _, h.valid.sub hnow fun cacheKey i hlookup => ?_⟩
    exact ((Cache.lookup_deleteExpired _ _ _ _).mp hlookup).1

/-- A permitted call answers as the wrapped repository does. -/
theorem Fresh.answer (h : Fresh uuid st) (hnow : st.clock ≤ now) {op : RepoOp}
    (hop : Permitted uuid st now op) :
    (st.call uuid now later op).1 = (PSQLAdapter.exec uuid now op st.table).1 := by
  cases op with
  | getKey id =>
    simp only [CachedStore.call, CachedStore.fetch, PSQLAdapter.exec]
    cases hget : st.repo.cache.get now (getCacheKey uuid id 0) with
    | none => cases PSQLAdapter.getKey st.table id <;> rfl
    | some key =>
      obtain ⟨-, r, hrow, rfl⟩ := h.valid.get hnow hget
      rw [PSQLAdapter.getKey_eq, hrow]
      rfl
  | getKeyByVersion id v =>
    simp only [CachedStore.call, CachedStore.fetch, PSQLAdapter.exec]
    cases hget : st.repo.cache.get now (getCacheKey uuid id v) with
    | none => cases PSQLAdapter.getKeyByVersion st.table id v <;> rfl
    | some key =>
      obtain ⟨hv, r, hrow, rfl⟩ := h.valid.get hnow hget
      have hpos : 0 < v := by
        rcases hv.lt_or_eq with hlt | rfl
        · exact hlt
        · rw [hop.version id (.inl rfl)] at hget
          cases hget
      rw [PSQLAdapter.getKeyByVersion_eq _ _ hpos, hrow]
      rfl
  | getKeyMetadata id =>
    simp only [CachedStore.call, CachedStore.fetchMetadata, PSQLAdapter.exec]
    cases hget : st.repo.cache.get now (getCacheKey uuid id 0) with
    | none => rfl
    | some key =>
      obtain ⟨-, r, hrow, rfl⟩ := h.valid.get hnow hget
      obtain ⟨m, hm⟩ := Option.ne_none_iff_exists'.mp (hop.metadata id 0 (.inl ⟨rfl, rfl⟩) _ hget)
      rw [Table.requested, if_neg (by decide)] at hrow
      have hm' : r.metadata = some m := hm
      simp [PSQLAdapter.getKeyMetadata, hrow, Row.scan, hm', PSQLAdapter.unmarshal]
  | getKeyMetadataByVersion id v =>
    simp only [CachedStore.call, CachedStore.fetchMetadata, PSQLAdapter.exec]
    cases hget : st.repo.cache.get now (getCacheKey uuid id v) with
    | none => rfl
    | some key =>
      obtain ⟨hv, r, hrow, rfl⟩ := h.valid.get hnow hget
      obtain ⟨m, hm⟩ := Option.ne_none_iff_exists'.mp (hop.metadata id v (.inr rfl) _ hget)
      have hpos : 0 < v := by
        rcases hv.lt_or_eq with hlt | rfl
        · exact hlt
        · rw [hop.version id (.inr rfl)] at hget
          cases hget
      rw [Table.requested, if_pos hpos] at hrow
      have hm' : r.metadata = some m := hm
      have hv' : ¬ v ≤ 0 := by omega
      simp [PSQLAdapter.getKeyMetadataByVersion, hv', hrow, Row.scan, hm', PSQLAdapter.unmarshal]
  | «exists» id =>
    simp only [CachedStore.call, PSQLAdapter.exec]
    cases hget : st.repo.cache.get now (getCacheKey uuid id 0) with
    | none => rfl
    | some key =>
      obtain ⟨-, r, hrow, -⟩ := h.valid.get hnow hget
      obtain ⟨hmem, hid⟩ := Table.mem_of_requested hrow
      have hexists : PSQLAdapter.exists st.table id = true :=
        List.any_eq_true.mpr ⟨r, hmem, by simp [hid]⟩
      rw [hexists]
  | _ => rfl

theorem fresh_of_run {t : Table} {start : Time}
    (hrun : Relation.ReflTransGen (Step uuid (Permitted uuid)) (new t start) st) :
    Fresh uuid st := by
  induction hrun with
  | refl => exact fresh_new uuid t start
  | tail _ hstep ih => exact ih.step hstep

/-- **The cache is transparent in the runs that avoid the three traps.**  From any table, after any
sequence of permitted calls and cleanups, a permitted call answers as the wrapped repository would
at that moment. -/
theorem cachedRepository_transparent {t : Table} {start : Time}
    (hrun : Relation.ReflTransGen (Step uuid (Permitted uuid)) (new t start) st) {op : RepoOp}
    (hnow : st.clock ≤ now) (hop : Permitted uuid st now op) :
    (st.call uuid now later op).1 = (PSQLAdapter.exec uuid now op st.table).1 :=
  (fresh_of_run hrun).answer hnow hop

/-! ### The traps -/

def cachedID : KeyID := ⟨1⟩

/-- A table with one key, whose metadata is given. -/
def cachedTable (metadata : Option KeyMetadata) : Table where
  rows := [⟨cachedID, 1, metadata, [1], .active, .standard, 0, 0, none⟩]
  primaryKey := by simp

/-- The store after the key has been read once. -/
def readOnce (metadata : Option KeyMetadata) : CachedStore :=
  ((new (cachedTable metadata) 0).call googleUUID 0 0 (.getKey cachedID)).2

theorem readOnce_run (metadata : Option KeyMetadata)
    {cond : CachedStore → Time → RepoOp → Prop}
    (hcond : cond (new (cachedTable metadata) 0) 0 (.getKey cachedID)) :
    Relation.ReflTransGen (Step googleUUID cond) (new (cachedTable metadata) 0)
      (readOnce metadata) :=
  .single (.call (le_refl _) (le_refl _) hcond)

theorem permitted_getKey (st : CachedStore) (now : Time) (id : KeyID) :
    Permitted googleUUID st now (.getKey id) := by
  constructor
  · intro id' hid'
    cases hid'
  · rintro id' (h | h) <;> cases h
  · rintro id' v (⟨h, -⟩ | h) <;> cases h

/-- One minute later the key is still cached, and reading it again is transparent. -/
theorem transparent_readOnce :
    (readOnce (some .zero)).repo.cache.get minute (getCacheKey googleUUID cachedID 0) ≠ none ∧
    ((readOnce (some .zero)).call googleUUID minute minute (.getKey cachedID)).1
      = (PSQLAdapter.exec googleUUID minute (.getKey cachedID) (readOnce (some .zero)).table).1 :=
  ⟨by decide +kernel, cachedRepository_transparent
    (readOnce_run _ (permitted_getKey _ _ _)) (by decide) (permitted_getKey _ _ _)⟩

/-- The key is read and then revoked by a batch: the cache still returns it as active.  Version 0 of
a cached key is returned where the repository has an error.  A key whose metadata is `null` has
none in the cache, and the zero message in the repository. -/
theorem cache_not_transparent :
    (∃ t st, Relation.ReflTransGen (Step googleUUID fun _ _ _ => True) (new t 0) st ∧
      (st.call googleUUID 0 0 (.getKey cachedID)).1
        ≠ (PSQLAdapter.exec googleUUID 0 (.getKey cachedID) st.table).1) ∧
    (∃ t st, Relation.ReflTransGen (Step googleUUID fun _ _ _ => True) (new t 0) st ∧
      (st.call googleUUID 0 0 (.getKeyByVersion cachedID 0)).1
        ≠ (PSQLAdapter.exec googleUUID 0 (.getKeyByVersion cachedID 0) st.table).1) ∧
    ∃ t st, Relation.ReflTransGen (Step googleUUID fun _ _ _ => True) (new t 0) st ∧
      (st.call googleUUID 0 0 (.getKeyMetadata cachedID)).1
        ≠ (PSQLAdapter.exec googleUUID 0 (.getKeyMetadata cachedID) st.table).1 := by
  refine ⟨⟨cachedTable (some .zero),
    ((readOnce (some .zero)).call googleUUID 0 0 (.revokeBatchKeys [cachedID])).2, ?_, ?_⟩,
    ⟨cachedTable (some .zero), readOnce (some .zero), readOnce_run _ trivial, ?_⟩,
    ⟨cachedTable none, readOnce none, readOnce_run _ trivial, ?_⟩⟩
  · exact (readOnce_run _ trivial).tail (.call (by decide) (le_refl _) trivial)
  · decide +kernel
  · decide +kernel
  · decide +kernel

end CachedStore

end Polykey
