/-
# The caching repository with its pointers

`CachedRepository.lean` has the cache hold keys.  What the cache really holds is POINTERS: `GetKey`
returns the `*domain.Key` that lies in the cache, also after a miss, so that whoever gets it can
change what later reads return.  Here the objects are explicit.  The heap lists every key object
that has been put into the cache, a pointer is an index into it, and the cache maps cache keys to
pointers.  A pointer never dangles, which is a field of the store.

Nothing the source does makes two key objects share their metadata, so an object is a key with
everything below it.

* `call` is the repository as callers see it, and `Step` what can happen to a store: a call, an
  assignment to an object by someone who holds its pointer, and a cleanup of the cache.
* `sees` is what a read of a key returns.  Reading does not change what is seen later
  (`sees_fetch`), though it may put an object into the cache.
-/
import Mathlib
import Polykey.Persistence.CachedRepository

namespace Polykey

open CachedRepository

/-! ## 1. Objects -/

/-- `CachedRepository` over its table, with the objects its cache points to. -/
structure ObjectStore where
  heap : List Key
  cache : Cache String Nat
  cacheIndex : AList fun _ : String => List String
  table : Table
  /-- no pointer dangles -/
  alive : ∀ cacheKey i, cache.items.lookup cacheKey = some i → i.value < heap.length

namespace ObjectStore

/-- `NewCachedRepository`. -/
def new (table : Table) : ObjectStore where
  heap := []
  cache := .new String Nat defaultCacheTTL
  cacheIndex := ∅
  table := table
  alive _ _ h := by cases h

/-- `cache.Get`, the pointer and what it points to. -/
def find (st : ObjectStore) (now : Time) (cacheKey : String) : Option (Nat × Key) :=
  (st.cache.get now cacheKey).bind fun ref => st.heap[ref]?.map fun key => (ref, key)

/-- An assignment to the object. -/
def assign (st : ObjectStore) (ref : Nat) (key : Key) : ObjectStore :=
  { st with
    heap := st.heap.set ref key
    alive := fun cacheKey i h => by simpa using st.alive cacheKey i h }

/-- `CachedRepository.storeInCache`, of a new object. -/
def storeInCache (uuid : UUIDPkg) (now : Time) (st : ObjectStore) (cacheKey : String) (k : Key) :
    ObjectStore where
  heap := st.heap ++ [k]
  cache := st.cache.set now cacheKey st.heap.length 0
  cacheIndex := st.cacheIndex.insert (k.id.string uuid)
    ((cacheKeys st.cacheIndex (k.id.string uuid)).insert cacheKey)
  table := st.table
  alive cacheKey' i h := by
    rw [List.length_append, List.length_singleton]
    by_cases hk : cacheKey' = cacheKey
    · subst hk
      rw [Cache.lookup_set_self] at h
      cases h
      rw [Cache.makeItem_value]
      exact Nat.lt_succ_self _
    · rw [Cache.lookup_set_ne _ _ _ _ hk] at h
      exact Nat.lt_succ_of_lt (st.alive cacheKey' i h)

/-- A removal from the cache, with `onCacheEvict` for each object removed. -/
def evict (uuid : UUIDPkg) (st : ObjectStore) (removal : Cache String Nat × List (String × Nat))
    (hsub : ∀ cacheKey i, removal.1.items.lookup cacheKey = some i →
      st.cache.items.lookup cacheKey = some i) : ObjectStore where
  heap := st.heap
  cache := removal.1
  cacheIndex := (removal.2.filterMap fun (cacheKey, ref) =>
    st.heap[ref]?.map fun key => (cacheKey, key)).foldl (onCacheEvict uuid) st.cacheIndex
  table := st.table
  alive cacheKey i h := st.alive cacheKey i (hsub cacheKey i h)

theorem lookup_of_delete {c : Cache String Nat} {k cacheKey : String} {i : Cache.Item Nat}
    (h : (c.delete k).1.items.lookup cacheKey = some i) : c.items.lookup cacheKey = some i := by
  by_cases hk : cacheKey = k
  · subst hk
    rw [Cache.lookup_delete_self] at h
    cases h
  · rwa [Cache.lookup_delete_ne _ hk] at h

/-- `CachedRepository.invalidateCache`. -/
def invalidateCache (uuid : UUIDPkg) (st : ObjectStore) (id : KeyID) : ObjectStore :=
  (cacheKeys st.cacheIndex (id.string uuid)).foldl
    (fun st cacheKey => st.evict uuid (st.cache.delete cacheKey) fun _ _ => lookup_of_delete) st

/-- One pass of the cache's cleanup loop. -/
def cleanup (uuid : UUIDPkg) (now : Time) (st : ObjectStore) : ObjectStore :=
  st.evict uuid (st.cache.deleteExpired now) fun cacheKey i h =>
    ((Cache.lookup_deleteExpired _ now cacheKey i).mp h).1

/-! ## 2. Calls -/

/-- `GetKey` and `GetKeyByVersion`: the pointer in the cache if there is one, else a pointer to what
the wrapped repository returns, which goes into the cache. -/
def fetch (uuid : UUIDPkg) (now later : Time) (cacheKey : String) (wrapped : Except Err Key)
    (st : ObjectStore) : Except Err (Nat × Key) × ObjectStore :=
  match st.find now cacheKey with
  | some object => (.ok object, st)
  | none =>
    match wrapped with
    | .error e => (.error e, st)
    | .ok key => (.ok (st.heap.length, key), st.storeInCache uuid later cacheKey key)

/-- `GetKeyMetadata` and `GetKeyMetadataByVersion`: nothing is stored. -/
def fetchMetadata (now : Time) (cacheKey : String) (wrapped : Except Err (Option KeyMetadata))
    (st : ObjectStore) : Except Err (Option KeyMetadata) :=
  match st.find now cacheKey with
  | some object => .ok object.2.metadata
  | none => wrapped

/-- Every other call: the wrapped repository, and the invalidation. -/
def passThrough (uuid : UUIDPkg) (now : Time) (op : RepoOp) (st : ObjectStore) :
    op.Answer × ObjectStore :=
  let out := PSQLAdapter.exec uuid now op st.table
  let written : ObjectStore := { st with table := out.2 }
  (out.1, if out.1.isOk then (CachedStore.invalidated op).foldl (invalidateCache uuid) written
    else written)

/-- A call through the cache, as `CachedStore.call`. -/
def call (uuid : UUIDPkg) (now later : Time) : (op : RepoOp) → ObjectStore → op.Answer × ObjectStore
  | .getKey id, st =>
    let out := st.fetch uuid now later (getCacheKey uuid id 0) (PSQLAdapter.getKey st.table id)
    (out.1.map Prod.snd, out.2)
  | .getKeyByVersion id v, st =>
    let out := st.fetch uuid now later (getCacheKey uuid id v)
      (PSQLAdapter.getKeyByVersion st.table id v)
    (out.1.map Prod.snd, out.2)
  | .getKeyMetadata id, st =>
    (st.fetchMetadata now (getCacheKey uuid id 0) (PSQLAdapter.getKeyMetadata st.table id), st)
  | .getKeyMetadataByVersion id v, st =>
    (st.fetchMetadata now (getCacheKey uuid id v)
      (PSQLAdapter.getKeyMetadataByVersion st.table id v), st)
  | .exists id, st =>
    match st.find now (getCacheKey uuid id 0) with
    | some _ => (.ok true, st)
    | none => (.ok (PSQLAdapter.exists st.table id), st)
  | op, st => st.passThrough uuid now op

/-- What can happen to a store.  A caller may assign anything to any object; a key that is created
has metadata.  No order of time is asked for, so this allows more than the process can do. -/
inductive Step (uuid : UUIDPkg) : ObjectStore → ObjectStore → Prop
  | call {st : ObjectStore} {op : RepoOp} (now later : Time)
      (h : ∀ k ∈ op.created, k.metadata ≠ none) : Step uuid st (st.call uuid now later op).2
  | assign {st : ObjectStore} (ref : Nat) (key : Key) : Step uuid st (st.assign ref key)
  | cleanup {st : ObjectStore} (now : Time) : Step uuid st (st.cleanup uuid now)

/-- A store that can come about from an empty one. -/
def Reachable (uuid : UUIDPkg) (st : ObjectStore) : Prop :=
  Relation.ReflTransGen (Step uuid) (new .empty) st

/-! ## 3. What is seen

What callers can observe of a store is what a read would return, at each later time. A read may
put a new object into the cache, but one that shows what was seen before. -/

/-- The read of the wrapped repository behind a cache key; version 0 stands for the latest. -/
def wrappedGet (t : Table) (id : KeyID) (v : Int) : Except Err Key :=
  if v = 0 then PSQLAdapter.getKey t id else PSQLAdapter.getKeyByVersion t id v

/-- What a read of a key at a time returns. -/
def sees (uuid : UUIDPkg) (st : ObjectStore) (now : Time) (id : KeyID) (v : Int) : Except Err Key :=
  match st.find now (getCacheKey uuid id v) with
  | some object => .ok object.2
  | none => wrappedGet st.table id v

section Sees

variable {uuid : UUIDPkg} {st : ObjectStore} {now later t : Time} {cacheKey : String}

theorem find_eq_some {ref : Nat} {key : Key} : st.find t cacheKey = some (ref, key) ↔
    ∃ i, st.cache.items.lookup cacheKey = some i ∧ i.expired t = false ∧ i.value = ref ∧
      st.heap[ref]? = some key := by
  unfold find
  rw [Option.bind_eq_some_iff]
  constructor
  · rintro ⟨ref', hget, hkey⟩
    obtain ⟨i, hlookup, hlive, rfl⟩ := Cache.get_eq_some.mp hget
    obtain ⟨key', hheap, heq⟩ := Option.map_eq_some_iff.mp hkey
    cases heq
    exact ⟨i, hlookup, hlive, rfl, hheap⟩
  · rintro ⟨i, hlookup, hlive, rfl, hheap⟩
    exact ⟨i.value, Cache.get_eq_some.mpr ⟨i, hlookup, hlive, rfl⟩, by simp [hheap]⟩

/-- A miss is an entry that is not there or has expired. -/
theorem find_eq_none : st.find t cacheKey = none ↔
    ∀ i, st.cache.items.lookup cacheKey = some i → i.expired t = true := by
  constructor
  · intro h i hlookup
    by_contra hlive
    have halive := st.alive cacheKey i hlookup
    have hfound : st.find t cacheKey = some (i.value, st.heap[i.value]) :=
      find_eq_some.mpr ⟨i, hlookup, by simpa using hlive, rfl, List.getElem?_eq_getElem halive⟩
    rw [hfound] at h
    cases h
  · intro h
    cases hfind : st.find t cacheKey with
    | none => rfl
    | some object =>
      obtain ⟨i, hlookup, hlive, -⟩ := find_eq_some.mp hfind
      rw [h i hlookup] at hlive
      cases hlive

/-- A miss stays one. -/
theorem find_none_mono (h : st.find now cacheKey = none) (hle : now ≤ t) :
    st.find t cacheKey = none :=
  find_eq_none.mpr fun i hlookup => Cache.Item.expired_mono (find_eq_none.mp h i hlookup) hle

/-- Other entries are as they were when an object is put into the cache. -/
theorem find_storeInCache_ne {cacheKey' : String} (hne : cacheKey' ≠ cacheKey) (k : Key) :
    (st.storeInCache uuid later cacheKey k).find t cacheKey' = st.find t cacheKey' := by
  have hlookup : (st.storeInCache uuid later cacheKey k).cache.items.lookup cacheKey' =
      st.cache.items.lookup cacheKey' := Cache.lookup_set_ne _ _ _ _ hne
  have hget : (st.storeInCache uuid later cacheKey k).cache.get t cacheKey' =
      st.cache.get t cacheKey' := by
    rw [Cache.get, Cache.get, hlookup]
  unfold find
  rw [hget]
  cases hold : st.cache.get t cacheKey' with
  | none => rfl
  | some ref =>
    obtain ⟨i, hi, -, rfl⟩ := Cache.get_eq_some.mp hold
    have halive := st.alive cacheKey' i hi
    simp [storeInCache, List.getElem?_append_left halive]

/-- The entry of an object that was put into the cache, as long as it lives. -/
theorem find_storeInCache_self (k : Key) :
    (st.storeInCache uuid later cacheKey k).find t cacheKey =
      if (st.cache.makeItem later st.heap.length 0).expired t then none
      else some (st.heap.length, k) := by
  have hget : (st.storeInCache uuid later cacheKey k).cache.get t cacheKey =
      if (st.cache.makeItem later st.heap.length 0).expired t then none
      else some st.heap.length := by
    rw [Cache.get]
    simp only [storeInCache, Cache.lookup_set_self, Cache.makeItem_value]
  unfold find
  rw [hget]
  split
  · rfl
  · simp [storeInCache]

/-- After an assignment an entry points to what was assigned, if it is an entry of that object. -/
theorem find_assign (ref : Nat) (key : Key) : (st.assign ref key).find t cacheKey =
    (st.find t cacheKey).map fun object => if object.1 = ref then (ref, key) else object := by
  unfold find
  have hcache : (st.assign ref key).cache = st.cache := rfl
  rw [hcache]
  cases hget : st.cache.get t cacheKey with
  | none => rfl
  | some ref' =>
    obtain ⟨i, hi, -, rfl⟩ := Cache.get_eq_some.mp hget
    have halive := st.alive cacheKey i hi
    by_cases href : i.value = ref
    · subst href
      simp [assign, halive]
    · simp [assign, halive, href, List.getElem_set_ne (Ne.symm href)]

theorem table_fetch {wrapped : Except Err Key} :
    (st.fetch uuid now later cacheKey wrapped).2.table = st.table := by
  unfold fetch
  split
  · rfl
  · split <;> rfl

/-- **Reading does not change what is seen later.** -/
theorem sees_fetch {id : KeyID} {v : Int} {wrapped : Except Err Key} (hle : now ≤ later)
    (hwrapped : ∀ key, wrapped = .ok key → wrappedGet st.table id v = .ok key) (ht : later ≤ t)
    (id' : KeyID) (v' : Int) :
    (st.fetch uuid now later (getCacheKey uuid id v) wrapped).2.sees uuid t id' v' =
      st.sees uuid t id' v' := by
  unfold fetch
  split
  · rfl
  · rename_i hmiss
    cases wrapped with
    | error e => rfl
    | ok key =>
      by_cases hsame : getCacheKey uuid id' v' = getCacheKey uuid id v
      · obtain ⟨rfl, rfl⟩ := getCacheKey_injective hsame
        have hold : st.find t (getCacheKey uuid id' v') = none :=
          find_none_mono hmiss (hle.trans ht)
        unfold sees
        rw [hold, find_storeInCache_self]
        split
        · rename_i object heq
          split at heq
          · cases heq
          · cases heq
            exact (hwrapped key rfl).symm
        · rfl
      · unfold sees
        rw [find_storeInCache_ne hsame]
        rfl

/-- What a fetch returns is what is seen. -/
theorem fetch_fst (uuid : UUIDPkg) (st : ObjectStore) (now later : Time) (id : KeyID) (v : Int) :
    (st.fetch uuid now later (getCacheKey uuid id v) (wrappedGet st.table id v)).1.map Prod.snd =
      st.sees uuid now id v := by
  unfold fetch sees
  cases st.find now (getCacheKey uuid id v) with
  | some object => rfl
  | none =>
    cases wrappedGet st.table id v with
    | error e => rfl
    | ok key => rfl

/-- Where all rows have metadata, the metadata that is read is that of the key that is seen. -/
theorem fetchMetadata_latest (hrows : ∀ r ∈ st.table.rows, r.metadata ≠ none) (id : KeyID) :
    st.fetchMetadata now (getCacheKey uuid id 0) (PSQLAdapter.getKeyMetadata st.table id) =
      (st.sees uuid now id 0).map Key.metadata := by
  unfold fetchMetadata sees
  cases st.find now (getCacheKey uuid id 0) with
  | some object => rfl
  | none =>
    simp only [wrappedGet, if_pos, PSQLAdapter.getKey, PSQLAdapter.getKeyMetadata]
    cases hrow : st.table.latest id with
    | none => rfl
    | some r =>
      obtain ⟨m, hm⟩ := Option.ne_none_iff_exists'.mp (hrows r (Table.latest_eq_some.mp hrow).1)
      simp [Except.map, Row.scan, hm, PSQLAdapter.unmarshal]

theorem fetchMetadata_version (hrows : ∀ r ∈ st.table.rows, r.metadata ≠ none) (id : KeyID)
    {v : Int} (hv : 0 < v) :
    st.fetchMetadata now (getCacheKey uuid id v)
        (PSQLAdapter.getKeyMetadataByVersion st.table id v) =
      (st.sees uuid now id v).map Key.metadata := by
  unfold fetchMetadata sees
  cases st.find now (getCacheKey uuid id v) with
  | some object => rfl
  | none =>
    simp only [wrappedGet, if_neg hv.ne', PSQLAdapter.getKeyByVersion,
      PSQLAdapter.getKeyMetadataByVersion, if_neg hv.not_ge]
    cases hrow : st.table.atVersion id v with
    | none => rfl
    | some r =>
      obtain ⟨m, hm⟩ := Option.ne_none_iff_exists'.mp (hrows r (Table.atVersion_eq_some.mp hrow).1)
      simp [Except.map, Row.scan, hm, PSQLAdapter.unmarshal]

end Sees

/-! ## 4. Reachable stores

Two facts are needed of every store that can come about: its rows have metadata, and an entry of
the cache expires and is of an id that has rows. Assignments by callers touch neither, since they
change objects and not entries. -/

/-- The rows of a table have metadata, and none of another table's ids is lost. -/
structure Keeps (t t' : Table) : Prop where
  metadata : ∀ r ∈ t'.rows, r.metadata ≠ none
  id : ∀ r ∈ t.rows, ∃ r' ∈ t'.rows, r'.id = r.id

section Table

open PSQLAdapter

variable {t t' t'' : Table} {now : Time}

theorem Keeps.refl (h : ∀ r ∈ t.rows, r.metadata ≠ none) : Keeps t t :=
  ⟨h, fun r hr => ⟨r, hr, rfl⟩⟩

theorem Keeps.trans (h : Keeps t t') (h' : Keeps t' t'') : Keeps t t'' := by
  refine ⟨h'.metadata, fun r hr => ?_⟩
  obtain ⟨r', hr', hid'⟩ := h.id r hr
  obtain ⟨r'', hr'', hid''⟩ := h'.id r' hr'
  exact ⟨r'', hr'', hid''.trans hid'⟩

theorem keeps_mapRows {f : Row → Row} {hf : ∀ r, (f r).key = r.key}
    (h : ∀ r ∈ t.rows, (f r).metadata ≠ none) : Keeps t (t.mapRows f hf) := by
  constructor
  · intro r hr
    obtain ⟨r₀, hr₀, rfl⟩ := Table.mem_mapRows.mp hr
    exact h r₀ hr₀
  · intro r hr
    exact ⟨f r, Table.mem_mapRows.mpr ⟨r, hr, rfl⟩, Table.mapRows_id hf r⟩

theorem keeps_append {new : List Row} (h : ∀ r ∈ t.rows, r.metadata ≠ none)
    (hrows : t'.rows = t.rows ++ new) (hnew : ∀ r ∈ new, r.metadata ≠ none) : Keeps t t' := by
  constructor
  · intro r hr
    rcases List.mem_append.mp (hrows ▸ hr) with hold | hadd
    · exact h r hold
    · exact hnew r hadd
  · intro r hr
    exact ⟨r, hrows ▸ List.mem_append_left _ hr, rfl⟩

theorem keeps_updateEach {updates : List (KeyID × Option KeyMetadata)}
    (h : ∀ r ∈ t.rows, r.metadata ≠ none) (hupdates : ∀ u ∈ updates, u.2 ≠ none) :
    Keeps t (updateEach now t updates) := by
  induction updates generalizing t with
  | nil => exact .refl h
  | cons u us ih =>
    have hfirst : Keeps t (t.updateMetadata u.1 u.2 (timestamptz now)) := by
      refine keeps_mapRows fun r hr => ?_
      split
      · exact hupdates u (by simp)
      · exact h r hr
    exact hfirst.trans (ih hfirst.metadata fun u' hu' => hupdates u' (by simp [hu']))

/-- **A call loses no id**, and leaves metadata in all rows. -/
theorem keeps_change {op : RepoOp} (hchange : Change now op t t')
    (hcreated : ∀ k ∈ op.created, k.metadata ≠ none) (h : ∀ r ∈ t.rows, r.metadata ≠ none) :
    Keeps t t' := by
  cases hchange with
  | same => exact .refl h
  | create hins =>
    refine keeps_append h (Table.insert_eq_some hins) fun r hr => ?_
    obtain ⟨k, hk, rfl⟩ := List.mem_map.mp hr
    exact hcreated k hk
  | update hwritten => exact keeps_updateEach h hwritten
  | revoke =>
    refine keeps_mapRows fun r hr => ?_
    split <;> exact h r hr
  | @rotate id dek _ _ old m hrot =>
    have hmarked : Keeps t (t.markRotated id (timestamptz now)) := by
      refine keeps_mapRows fun r hr => ?_
      split <;> exact h r hr
    refine hmarked.trans (keeps_append hmarked.metadata hrot.rows fun r hr => ?_)
    rw [List.mem_singleton.mp hr]
    exact Option.some_ne_none _

end Table

/-- What holds of every reachable store. -/
structure Sane (uuid : UUIDPkg) (st : ObjectStore) : Prop where
  ttl : st.cache.defaultTTL = defaultCacheTTL
  rows : ∀ r ∈ st.table.rows, r.metadata ≠ none
  /-- every entry expires, and is of an id that has rows -/
  entry : ∀ cacheKey i, st.cache.items.lookup cacheKey = some i → i.permanent = false ∧
    ∃ r ∈ st.table.rows, ∃ v, cacheKey = getCacheKey uuid r.id v

section Sane

variable {uuid : UUIDPkg} {st : ObjectStore} {now later : Time}

theorem sane_new (uuid : UUIDPkg) : Sane uuid (new .empty) :=
  ⟨rfl, fun _ hr => (by cases hr), fun _ _ h => (by cases h)⟩

theorem Sane.evict (h : Sane uuid st) {removal : Cache String Nat × List (String × Nat)}
    {hsub : ∀ cacheKey i, removal.1.items.lookup cacheKey = some i →
      st.cache.items.lookup cacheKey = some i} (httl : removal.1.defaultTTL = st.cache.defaultTTL) :
    Sane uuid (st.evict uuid removal hsub) :=
  ⟨httl.trans h.ttl, h.rows, fun cacheKey i hi => h.entry cacheKey i (hsub cacheKey i hi)⟩

theorem Sane.invalidateCache (h : Sane uuid st) (id : KeyID) :
    Sane uuid (st.invalidateCache uuid id) := by
  unfold ObjectStore.invalidateCache
  induction cacheKeys st.cacheIndex (id.string uuid) generalizing st with
  | nil => exact h
  | cons cacheKey cacheKeys ih =>
    refine ih (h.evict ?_)
    unfold Cache.delete
    split <;> rfl

theorem Sane.invalidateAll (h : Sane uuid st) (ids : List KeyID) :
    Sane uuid (ids.foldl (ObjectStore.invalidateCache uuid) st) := by
  induction ids generalizing st with
  | nil => exact h
  | cons id ids ih => exact ih (h.invalidateCache id)

theorem Sane.storeInCache (h : Sane uuid st) {id : KeyID} {v : Int}
    (hid : ∃ r ∈ st.table.rows, r.id = id) (k : Key) :
    Sane uuid (st.storeInCache uuid later (getCacheKey uuid id v) k) := by
  refine ⟨h.ttl, h.rows, fun cacheKey i hi => ?_⟩
  by_cases hk : cacheKey = getCacheKey uuid id v
  · subst hk
    obtain ⟨r, hr, rfl⟩ := hid
    simp only [ObjectStore.storeInCache, Cache.lookup_set_self, Option.some.injEq] at hi
    subst hi
    exact ⟨rfl, r, hr, v, rfl⟩
  · simp only [ObjectStore.storeInCache, Cache.lookup_set_ne _ _ _ _ hk] at hi
    exact h.entry cacheKey i hi

theorem Sane.fetch (h : Sane uuid st) {id : KeyID} {v : Int} {wrapped : Except Err Key}
    (hwrapped : ∀ key, wrapped = .ok key → ∃ r ∈ st.table.rows, r.id = id) :
    Sane uuid (st.fetch uuid now later (getCacheKey uuid id v) wrapped).2 := by
  unfold ObjectStore.fetch
  split
  · exact h
  · cases wrapped with
    | error e => exact h
    | ok key => exact h.storeInCache (hwrapped key rfl) key

theorem Sane.passThrough (h : Sane uuid st) {op : RepoOp}
    (hcreated : ∀ k ∈ op.created, k.metadata ≠ none) :
    Sane uuid (st.passThrough uuid now op).2 := by
  have hkeeps : Keeps st.table (PSQLAdapter.exec uuid now op st.table).2 :=
    keeps_change (PSQLAdapter.exec_change rfl) hcreated h.rows
  have hwritten : Sane uuid { st with table := (PSQLAdapter.exec uuid now op st.table).2 } := by
    refine ⟨h.ttl, hkeeps.metadata, fun cacheKey i hi => ?_⟩
    obtain ⟨hperm, r, hr, v, hkey⟩ := h.entry cacheKey i hi
    obtain ⟨r', hr', hid⟩ := hkeeps.id r hr
    exact ⟨hperm, r', hr', v, hid ▸ hkey⟩
  unfold ObjectStore.passThrough
  simp only
  split
  · exact hwritten.invalidateAll _
  · exact hwritten

theorem row_of_getKey {t : Table} {id : KeyID} {key : Key} (h : PSQLAdapter.getKey t id = .ok key) :
    ∃ r, t.latest id = some r ∧ r.scan = key := by
  unfold PSQLAdapter.getKey at h
  split at h
  · cases h
  · rename_i r hr
    cases h
    exact ⟨r, hr, rfl⟩

/-- **The step lemma.** -/
theorem Sane.step (h : Sane uuid st) {st' : ObjectStore} (hstep : Step uuid st st') :
    Sane uuid st' := by
  cases hstep with
  | assign ref key => exact ⟨h.ttl, h.rows, h.entry⟩
  | cleanup now => exact h.evict rfl
  | @call op now later hcreated =>
    cases op with
    | getKey id =>
      refine h.fetch fun key hkey => ?_
      obtain ⟨r, hr, -⟩ := row_of_getKey hkey
      exact ⟨r, (Table.latest_eq_some.mp hr).1, (Table.latest_eq_some.mp hr).2.1⟩
    | getKeyByVersion id v =>
      refine h.fetch fun key hkey => ?_
      unfold PSQLAdapter.getKeyByVersion at hkey
      split at hkey
      · cases hkey
      split at hkey
      · cases hkey
      · rename_i r hr
        have hrow := Table.atVersion_eq_some.mp hr
        exact ⟨r, hrow.1, hrow.2.1⟩
    | getKeyMetadata id => exact h
    | getKeyMetadataByVersion id v => exact h
    | «exists» id =>
      simp only [ObjectStore.call]
      split <;> exact h
    | _ => exact h.passThrough hcreated

theorem Reachable.sane (h : Reachable uuid st) : Sane uuid st := by
  induction h with
  | refl => exact sane_new uuid
  | tail _ hstep ih => exact ih.step hstep

/-- An id without rows is not in the cache. -/
theorem Sane.find_none (h : Sane uuid st) {id : KeyID} {v : Int}
    (hrow : st.table.latest id = none) :
    st.find now (getCacheKey uuid id v) = none := by
  refine find_eq_none.mpr fun i hi => ?_
  obtain ⟨-, r, hr, v', hkey⟩ := h.entry _ i hi
  obtain ⟨rfl, -⟩ := getCacheKey_injective hkey
  exact absurd rfl (Table.latest_eq_none.mp hrow r hr)

end Sane

end ObjectStore

end Polykey
