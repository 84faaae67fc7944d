/-
# The index of the caching repository

`CachedRepository` keeps two structures in step: the TTL cache, and an index from the text of an id
to the cache keys of that id, by which a write finds the entries it has to delete.  They are kept in
step from two sides.  `storeInCache` adds to both; what the cache removes by itself, in `Delete` or
in a cleanup pass, comes back through the eviction callback.  An overwrite calls nothing, and needs
nothing: a cache key belongs to ONE id, so what is overwritten was indexed under the same id.

`CachedRepository.lean` has the half of this that makes invalidation work, that every entry is
indexed.  Here it is both halves (`Exact`), over ANY wrapped repository whose keys carry the ids
they were asked for, and with the entries of a cleanup pass coming in any order.
-/
import Polykey.Cache.TimedMap
import Polykey.Domain.Uuid
import Polykey.Persistence.CachedRepository

namespace Polykey

namespace CachedRepository

/-! ## 1. Calls over any repository -/

/-- `GetKey` and `GetKeyByVersion`; `wrapped` is what the wrapped repository answers if it is
asked. -/
def readThrough (uuid : UUIDPkg) (now later : Time) (cacheKey : String) (wrapped : Except Err Key)
    (cr : CachedRepository) : Except Err Key × CachedRepository :=
  match cr.cache.get now cacheKey with
  | some key => (.ok key, cr)
  | none =>
    match wrapped with
    | .error e => (.error e, cr)
    | .ok key => (.ok key, cr.storeInCache uuid later cacheKey key)

/-- `GetKeyMetadata` and `GetKeyMetadataByVersion`. -/
def readMetadata (now : Time) (cacheKey : String) (wrapped : Except Err (Option KeyMetadata))
    (cr : CachedRepository) : Except Err (Option KeyMetadata) :=
  match cr.cache.get now cacheKey with
  | some key => .ok key.metadata
  | none => wrapped

/-- A call through the cache. -/
def callThrough (uuid : UUIDPkg) (now later : Time) :
    (op : RepoOp) → (wrapped : op.Answer) → CachedRepository → op.Answer × CachedRepository
  | .getKey id, wrapped, cr => cr.readThrough uuid now later (getCacheKey uuid id 0) wrapped
  | .getKeyByVersion id v, wrapped, cr =>
    cr.readThrough uuid now later (getCacheKey uuid id v) wrapped
  | .getKeyMetadata id, wrapped, cr =>
    (cr.readMetadata now (getCacheKey uuid id 0) wrapped, cr)
  | .getKeyMetadataByVersion id v, wrapped, cr =>
    (cr.readMetadata now (getCacheKey uuid id v) wrapped, cr)
  | .exists id, wrapped, cr =>
    match cr.cache.get now (getCacheKey uuid id 0) with
    | some _ => (.ok true, cr)
    | none => (wrapped, cr)
  | op, wrapped, cr =>
    (wrapped, if wrapped.isOk then (CachedStore.invalidated op).foldl (invalidateCache uuid) cr
      else cr)

/-- The keys that a repository returns carry the ids they were asked for. -/
def Carries : (op : RepoOp) → op.Answer → Prop
  | .getKey id, answer | .getKeyByVersion id _, answer => ∀ key, answer = .ok key → key.id = id
  | _, _ => True

/-- What can happen to the cache: a call, whatever the wrapped repository answers, or a cleanup
pass. -/
inductive Step (uuid : UUIDPkg) : CachedRepository → CachedRepository → Prop
  | call {cr : CachedRepository} (now later : Time) {op : RepoOp} {wrapped : op.Answer}
      (h : Carries op wrapped) : Step uuid cr (cr.callThrough uuid now later op wrapped).2
  | cleanup {cr : CachedRepository} (now : Time)
      {order : List (Sigma fun _ : String => Cache.Item Key)}
      (h : order.Perm cr.cache.items.entries) :
      Step uuid cr (cr.evict uuid (cr.cache.sweep now order))

/-- A cache that can come about. -/
def Reachable (uuid : UUIDPkg) : CachedRepository → Prop := Relation.ReflTransGen (Step uuid) new

/-- Over the table of `PSQLAdapter`, this is the repository of `CachedStore`. -/
theorem call_eq_callThrough (uuid : UUIDPkg) (now later : Time) (op : RepoOp) (st : CachedStore) :
    st.call uuid now later op =
      ((st.repo.callThrough uuid now later op (PSQLAdapter.exec uuid now op st.table).1).1,
        ⟨(st.repo.callThrough uuid now later op (PSQLAdapter.exec uuid now op st.table).1).2,
          (PSQLAdapter.exec uuid now op st.table).2, later⟩) := by
  cases op with
  | getKey id =>
    simp only [CachedStore.call, CachedStore.fetch, callThrough, readThrough, PSQLAdapter.exec]
    cases st.repo.cache.get now (getCacheKey uuid id 0) with
    | some key => rfl
    | none => cases PSQLAdapter.getKey st.table id <;> rfl
  | getKeyByVersion id v =>
    simp only [CachedStore.call, CachedStore.fetch, callThrough, readThrough, PSQLAdapter.exec]
    cases st.repo.cache.get now (getCacheKey uuid id v) with
    | some key => rfl
    | none => cases PSQLAdapter.getKeyByVersion st.table id v <;> rfl
  | getKeyMetadata id =>
    simp only [CachedStore.call, CachedStore.fetchMetadata, callThrough, readMetadata,
      PSQLAdapter.exec]
    cases st.repo.cache.get now (getCacheKey uuid id 0) <;> rfl
  | getKeyMetadataByVersion id v =>
    simp only [CachedStore.call, CachedStore.fetchMetadata, callThrough, readMetadata,
      PSQLAdapter.exec]
    cases st.repo.cache.get now (getCacheKey uuid id v) <;> rfl
  | «exists» id =>
    simp only [CachedStore.call, callThrough, PSQLAdapter.exec]
    cases st.repo.cache.get now (getCacheKey uuid id 0) <;> rfl
  | _ => rfl

/-! ## 2. What the callback does to the index

The callback takes one cache key off one list, and the list out of the index when it is empty. It
is looked at by itself, for any number of calls, before it is known why it is called. -/

/-- No id has an empty list, and no cache key is listed twice. -/
def Tidy (index : AList fun _ : String => List String) : Prop :=
  ∀ keyIDStr keys, index.lookup keyIDStr = some keys → keys ≠ [] ∧ keys.Nodup

section Index

variable {index : AList fun _ : String => List String}

theorem Tidy.insert (h : Tidy index) {keyIDStr : String} {keys : List String} (hne : keys ≠ [])
    (hnodup : keys.Nodup) : Tidy (index.insert keyIDStr keys) := by
  intro s ks hlookup
  by_cases hs : s = keyIDStr
  · subst hs
    rw [AList.lookup_insert] at hlookup
    cases hlookup
    exact ⟨hne, hnodup⟩
  · rw [AList.lookup_insert_ne hs] at hlookup
    exact h s ks hlookup

theorem Tidy.erase (h : Tidy index) (keyIDStr : String) : Tidy (index.erase keyIDStr) := by
  intro s ks hlookup
  by_cases hs : s = keyIDStr
  · subst hs
    rw [AList.lookup_erase] at hlookup
    cases hlookup
  · rw [AList.lookup_erase_ne hs] at hlookup
    exact h s ks hlookup

theorem Tidy.nodup_cacheKeys (h : Tidy index) (keyIDStr : String) :
    (cacheKeys index keyIDStr).Nodup := by
  cases hlookup : index.lookup keyIDStr with
  | none => simp [cacheKeys, hlookup]
  | some keys =>
    rw [cacheKeys_of_lookup hlookup]
    exact (h keyIDStr keys hlookup).2

/-- **One call of the callback** takes its cache key off the list of its id. -/
theorem Tidy.evictOne (h : Tidy index) (uuid : UUIDPkg) (entry : String × Key) :
    Tidy (onCacheEvict uuid index entry) ∧ ∀ keyIDStr cacheKey,
      cacheKey ∈ cacheKeys (onCacheEvict uuid index entry) keyIDStr ↔
        cacheKey ∈ cacheKeys index keyIDStr ∧
          ¬ (keyIDStr = entry.2.id.string uuid ∧ cacheKey = entry.1) := by
  unfold CachedRepository.onCacheEvict
  cases hlookup : index.lookup (entry.2.id.string uuid) with
  | none =>
    refine ⟨h, fun keyIDStr cacheKey => ⟨fun hmem => ⟨hmem, ?_⟩, fun hmem => hmem.1⟩⟩
    rintro ⟨rfl, -⟩
    simp [cacheKeys, hlookup] at hmem
  | some keys =>
    have hnodup := (h _ _ hlookup).2
    have hother : ∀ keyIDStr, keyIDStr ≠ entry.2.id.string uuid → ∀ cacheKey,
        (cacheKey ∈ cacheKeys index keyIDStr ↔ cacheKey ∈ cacheKeys index keyIDStr ∧
          ¬ (keyIDStr = entry.2.id.string uuid ∧ cacheKey = entry.1)) := by
      intro keyIDStr hs cacheKey
      simp [hs]
    simp only
    split
    · rename_i hempty
      refine ⟨h.erase _, fun keyIDStr cacheKey => ?_⟩
      by_cases hs : keyIDStr = entry.2.id.string uuid
      · subst hs
        have hkeys : ∀ k, k ∈ keys → k = entry.1 := by
          intro k hk
          by_contra hne
          have := (List.mem_erase_of_ne hne).mpr hk
          rw [hempty] at this
          cases this
        rw [cacheKeys_of_lookup hlookup]
        simp only [cacheKeys, AList.lookup_erase, Option.getD_none, List.not_mem_nil, false_iff]
        rintro ⟨hmem, hne⟩
        exact hne ⟨trivial, hkeys cacheKey hmem⟩
      · rw [cacheKeys_erase_ne hs]
        exact hother keyIDStr hs cacheKey
    · rename_i hleft
      refine ⟨h.insert hleft (hnodup.erase _), fun keyIDStr cacheKey => ?_⟩
      by_cases hs : keyIDStr = entry.2.id.string uuid
      · subst hs
        rw [cacheKeys_insert_self, cacheKeys_of_lookup hlookup, hnodup.mem_erase_iff]
        simp [and_comm]
      · rw [cacheKeys_insert_ne _ hs]
        exact hother keyIDStr hs cacheKey

/-- Any number of calls of the callback. -/
theorem Tidy.evictAll (h : Tidy index) (uuid : UUIDPkg) (evicted : List (String × Key)) :
    Tidy (evicted.foldl (onCacheEvict uuid) index) ∧ ∀ keyIDStr cacheKey,
      cacheKey ∈ cacheKeys (evicted.foldl (onCacheEvict uuid) index) keyIDStr ↔
        cacheKey ∈ cacheKeys index keyIDStr ∧ ∀ entry ∈ evicted,
          ¬ (keyIDStr = entry.2.id.string uuid ∧ cacheKey = entry.1) := by
  induction evicted generalizing index with
  | nil => exact ⟨h, fun _ _ => by simp⟩
  | cons entry evicted ih =>
    obtain ⟨htidy, hone⟩ := h.evictOne uuid entry
    obtain ⟨hall, hrest⟩ := ih htidy
    refine ⟨hall, fun keyIDStr cacheKey => ?_⟩
    rw [List.foldl_cons, hrest, hone, and_assoc, List.forall_mem_cons]

end Index

/-! ## 3. The index is exact

Entries come by `storeInCache` and go by removals that report what they remove. `Exact.evict` is
for every removal of that kind; `Delete` and a cleanup pass are shown to be of it (`Reports`). -/

/-- **The index and the cache are in step.** -/
structure Exact (uuid : UUIDPkg) (cr : CachedRepository) : Prop where
  /-- the list of an id is that of the entries with the id -/
  index : ∀ id cacheKey, cacheKey ∈ cacheKeys cr.cacheIndex (id.string uuid) ↔
    ∃ i, cr.cache.items.lookup cacheKey = some i ∧ i.value.id = id
  tidy : Tidy cr.cacheIndex
  /-- an entry lies under a cache key of its id -/
  named : ∀ cacheKey i, cr.cache.items.lookup cacheKey = some i →
    ∃ v, cacheKey = getCacheKey uuid i.value.id v

section Exact

variable {uuid : UUIDPkg} {cr : CachedRepository}

theorem exact_new (uuid : UUIDPkg) : Exact uuid new := by
  refine ⟨fun id cacheKey => ?_, (fun _ _ h => by cases h), fun _ _ h => by cases h⟩
  constructor
  · intro h
    cases h
  · rintro ⟨i, hi, -⟩
    cases hi

/-- What is stored is indexed under its id, and what it overwrites was. -/
theorem Exact.storeInCache (h : Exact uuid cr) (now : Time) (v : Int) (k : Key) :
    Exact uuid (cr.storeInCache uuid now (getCacheKey uuid k.id v) k) := by
  have hself : (cr.cache.makeItem now k 0).value = k := Cache.makeItem_value _ _ _ _
  refine ⟨fun id cacheKey => ?_, ?_, fun cacheKey i hi => ?_⟩
  · by_cases hid : id = k.id
    · subst hid
      simp only [CachedRepository.storeInCache, cacheKeys_insert_self, List.mem_insert_iff, h.index]
      by_cases hkey : cacheKey = getCacheKey uuid k.id v
      · subst hkey
        simp [hself]
      · simp [hkey, Cache.lookup_set_ne _ _ _ _ hkey]
    · have htext : id.string uuid ≠ k.id.string uuid := fun heq =>
        hid (KeyID.string_injective uuid heq)
      simp only [CachedRepository.storeInCache, cacheKeys_insert_ne _ htext, h.index]
      by_cases hkey : cacheKey = getCacheKey uuid k.id v
      · subst hkey
        simp only [Cache.lookup_set_self, Option.some.injEq, exists_eq_left', hself]
        refine iff_of_false ?_ (Ne.symm hid)
        -- a cache key belongs to one id
        rintro ⟨i, hi, rfl⟩
        obtain ⟨v', hv'⟩ := h.named _ i hi
        exact hid (getCacheKey_injective hv').1.symm
      · simp [Cache.lookup_set_ne _ _ _ _ hkey]
  · refine h.tidy.insert ?_ ((h.tidy.nodup_cacheKeys _).insert)
    exact List.ne_nil_of_mem List.mem_insert_self
  · by_cases hkey : cacheKey = getCacheKey uuid k.id v
    · subst hkey
      simp only [CachedRepository.storeInCache, Cache.lookup_set_self, Option.some.injEq] at hi
      subst hi
      exact ⟨v, by rw [hself]⟩
    · simp only [CachedRepository.storeInCache, Cache.lookup_set_ne _ _ _ _ hkey] at hi
      exact h.named cacheKey i hi

/-- A removal that reports what it removes. -/
structure Reports (c : Cache String Key) (removal : Cache String Key × List (String × Key)) :
    Prop where
  left : ∀ cacheKey i, removal.1.items.lookup cacheKey = some i ↔
    c.items.lookup cacheKey = some i ∧ ∀ entry ∈ removal.2, entry.1 ≠ cacheKey
  gone : ∀ entry ∈ removal.2, ∃ i, c.items.lookup entry.1 = some i ∧ i.value = entry.2

/-- **A removal that reports what it removes** keeps the two in step. -/
theorem Exact.evict (h : Exact uuid cr) {removal : Cache String Key × List (String × Key)}
    (hreports : Reports cr.cache removal) : Exact uuid (cr.evict uuid removal) := by
  obtain ⟨htidy, hindex⟩ := h.tidy.evictAll uuid removal.2
  refine ⟨fun id cacheKey => ?_, htidy, fun cacheKey i hi => ?_⟩
  · have hkept : ∀ i, cr.cache.items.lookup cacheKey = some i → i.value.id = id →
        ((∀ entry ∈ removal.2, ¬ (id.string uuid = entry.2.id.string uuid ∧ cacheKey = entry.1)) ↔
          ∀ entry ∈ removal.2, entry.1 ≠ cacheKey) := by
      intro i hi hid
      refine forall₂_congr fun entry hentry => not_congr ⟨fun heq => heq.2.symm, ?_⟩
      rintro rfl
      obtain ⟨i', hi', hvalue⟩ := hreports.gone entry hentry
      rw [hi] at hi'
      cases hi'
      exact ⟨by rw [← hid, hvalue], rfl⟩
    simp only [CachedRepository.evict, hindex, h.index, hreports.left]
    constructor
    · rintro ⟨⟨i, hi, hid⟩, hno⟩
      exact ⟨i, ⟨hi, (hkept i hi hid).mp hno⟩, hid⟩
    · rintro ⟨i, ⟨hi, hno⟩, hid⟩
      exact ⟨⟨i, hi, hid⟩, (hkept i hi hid).mpr hno⟩
  · exact h.named cacheKey i ((hreports.left cacheKey i).mp hi).1

theorem reports_delete (c : Cache String Key) (cacheKey : String) :
    Reports c (c.delete cacheKey) := by
  cases hlookup : c.items.lookup cacheKey with
  | none =>
    have hnone : c.delete cacheKey = (c, []) := by simp [Cache.delete, hlookup]
    rw [hnone]
    exact ⟨fun _ _ => by simp, fun _ h => by cases h⟩
  | some i =>
    rw [Cache.delete_of_lookup hlookup]
    constructor
    · intro cacheKey' i'
      by_cases hkey : cacheKey' = cacheKey
      · subst hkey
        simp
      · simp [AList.lookup_erase_ne hkey, Ne.symm hkey]
    · simp [hlookup]

/-- A cleanup pass: what had expired is removed and reported, and nothing else. -/
theorem reports_expired {c : Cache String Key} {now : Time}
    {removal : Cache String Key × List (String × Key)}
    (hleft : ∀ cacheKey i, removal.1.items.lookup cacheKey = some i ↔
      c.items.lookup cacheKey = some i ∧ i.expired now = false)
    (hgone : ∀ cacheKey k, (cacheKey, k) ∈ removal.2 ↔
      ∃ i, c.items.lookup cacheKey = some i ∧ i.expired now = true ∧ i.value = k) :
    Reports c removal := by
  constructor
  · intro cacheKey i
    rw [hleft]
    refine and_congr_right fun hi => ⟨?_, fun hno => ?_⟩
    · rintro hlive ⟨k, v⟩ hentry rfl
      obtain ⟨i', hi', hexp, -⟩ := (hgone _ _).mp hentry
      rw [hi] at hi'
      cases hi'
      rw [hlive] at hexp
      cases hexp
    · by_contra hexp
      exact hno _ ((hgone cacheKey i.value).mpr ⟨i, hi, by simpa using hexp, rfl⟩) rfl
  · rintro ⟨cacheKey, k⟩ hentry
    obtain ⟨i, hi, -, hvalue⟩ := (hgone _ _).mp hentry
    exact ⟨i, hi, hvalue⟩

theorem reports_sweep {c : Cache String Key} (now : Time)
    {order : List (Sigma fun _ : String => Cache.Item Key)} (h : order.Perm c.items.entries) :
    Reports c (c.sweep now order) := by
  obtain ⟨hperm, -, hleft⟩ := Cache.sweep_spec now h
  refine reports_expired (fun cacheKey i => ?_) fun cacheKey k =>
    hperm.mem_iff.trans Cache.mem_deleteExpired
  simp [hleft, Option.filter_eq_some_iff]

theorem Exact.deleteAll (h : Exact uuid cr) (keysToDel : List String) :
    Exact uuid (cr.deleteAll uuid keysToDel) := by
  induction keysToDel generalizing cr with
  | nil => exact h
  | cons k ks ih => exact ih (h.evict (reports_delete _ k))

theorem Exact.invalidateAll (h : Exact uuid cr) (ids : List KeyID) :
    Exact uuid (ids.foldl (invalidateCache uuid) cr) := by
  induction ids generalizing cr with
  | nil => exact h
  | cons id ids ih => exact ih (h.deleteAll _)

theorem Exact.readThrough (h : Exact uuid cr) {id : KeyID} (v : Int) (now later : Time)
    {wrapped : Except Err Key} (hid : ∀ key, wrapped = .ok key → key.id = id) :
    Exact uuid (cr.readThrough uuid now later (getCacheKey uuid id v) wrapped).2 := by
  unfold CachedRepository.readThrough
  split
  · exact h
  · cases wrapped with
    | error e => exact h
    | ok key =>
      obtain rfl := hid key rfl
      exact h.storeInCache later v key

/-- **The step lemma.** -/
theorem Exact.step (h : Exact uuid cr) {cr' : CachedRepository} (hstep : Step uuid cr cr') :
    Exact uuid cr' := by
  cases hstep with
  | cleanup now horder => exact h.evict (reports_sweep now horder)
  | @call now later op wrapped hcarries =>
    cases op with
    | getKey id => exact h.readThrough 0 now later hcarries
    | getKeyByVersion id v => exact h.readThrough v now later hcarries
    | getKeyMetadata id => exact h
    | getKeyMetadataByVersion id v => exact h
    | «exists» id =>
      simp only [callThrough]
      split <;> exact h
    | _ =>
      simp only [callThrough]
      split
      · exact h.invalidateAll _
      · exact h

/-- **The run lemma.** -/
theorem Reachable.exact (h : Reachable uuid cr) : Exact uuid cr := by
  induction h with
  | refl => exact exact_new uuid
  | tail _ hstep ih => exact ih.step hstep

/-- What an invalidation leaves. -/
theorem Exact.lookup_invalidateCache (h : Exact uuid cr) (id : KeyID) (cacheKey : String)
    (i : Cache.Item Key) :
    (cr.invalidateCache uuid id).cache.items.lookup cacheKey = some i ↔
      cr.cache.items.lookup cacheKey = some i ∧ i.value.id ≠ id := by
  rw [invalidateCache, lookup_deleteAll]
  split
  · rename_i hmem
    obtain ⟨i', hi', hid⟩ := (h.index id cacheKey).mp hmem
    simp only [reduceCtorEq, false_iff, hi', Option.some.injEq]
    rintro ⟨rfl, hne⟩
    exact hne hid
  · rename_i hmem
    exact ⟨fun hi => ⟨hi, fun hid => hmem ((h.index id cacheKey).mpr ⟨i, hi, hid⟩)⟩,
      fun hi => hi.1⟩

/-- An invalidation also takes the id out of the index. -/
theorem Exact.index_invalidateCache (h : Exact uuid cr) (id : KeyID) :
    (cr.invalidateCache uuid id).cacheIndex.lookup (id.string uuid) = none := by
  have hexact : Exact uuid (cr.invalidateCache uuid id) := h.deleteAll _
  cases hlookup : (cr.invalidateCache uuid id).cacheIndex.lookup (id.string uuid) with
  | none => rfl
  | some keys =>
    -- a listed cache key would be that of an entry with the id
    obtain ⟨cacheKey, hmem⟩ := List.exists_mem_of_ne_nil _ (hexact.tidy _ _ hlookup).1
    rw [← cacheKeys_of_lookup hlookup] at hmem
    obtain ⟨i, hi, hid⟩ := (hexact.index id cacheKey).mp hmem
    exact absurd hid ((h.lookup_invalidateCache id cacheKey i).mp hi).2

/-- **The index is exact in every reachable state.**  The list of an id is the set of the cache keys
whose entries have the id, and no list is empty.  A cache key determines its id and version.  An
invalidation removes the entries of its id, and leaves every other one. -/
theorem cacheIndex_exact (h : Reachable uuid cr) :
    (∀ id cacheKey, cacheKey ∈ cacheKeys cr.cacheIndex (id.string uuid) ↔
      ∃ i, cr.cache.items.lookup cacheKey = some i ∧ i.value.id = id) ∧
    (∀ keyIDStr keys, cr.cacheIndex.lookup keyIDStr = some keys → keys ≠ [] ∧ keys.Nodup) ∧
    (∀ id id' v v', getCacheKey uuid id v = getCacheKey uuid id' v' → id = id' ∧ v = v') ∧
    ∀ id, (cr.invalidateCache uuid id).cacheIndex.lookup (id.string uuid) = none ∧
      ∀ cacheKey i, (cr.invalidateCache uuid id).cache.items.lookup cacheKey = some i ↔
        cr.cache.items.lookup cacheKey = some i ∧ i.value.id ≠ id :=
  ⟨h.exact.index, h.exact.tidy, fun _ _ _ _ heq => getCacheKey_injective heq,
    fun id => ⟨h.exact.index_invalidateCache id, h.exact.lookup_invalidateCache id⟩⟩

end Exact

/-! ### A key read twice -/

/-- A key as the repository of `CachedStore.cachedTable` has it. -/
def readKey : Key where
  id := CachedStore.cachedID
  version := 1
  metadata := some .zero
  encryptedDEK := [1]
  status := .active
  createdAt := 0
  updatedAt := 0
  revokedAt := none

/-- The cache after the key has been read by its id, and again by its version. -/
def readTwice : CachedRepository :=
  ((new.callThrough googleUUID 0 0 (.getKey readKey.id) (.ok readKey)).2.callThrough googleUUID 0 0
    (.getKeyByVersion readKey.id 1) (.ok readKey)).2

theorem readTwice_reachable : Reachable googleUUID readTwice := by
  have hread : Reachable googleUUID
      (new.callThrough googleUUID 0 0 (.getKey readKey.id) (.ok readKey)).2 :=
    .single (.call 0 0 fun key hkey => by cases hkey; rfl)
  exact hread.tail (.call 0 0 fun key hkey => by cases hkey; rfl)

/-- Both cache keys are listed, and one invalidation removes both. -/
theorem cacheIndex_exact_readTwice :
    (cacheKeys readTwice.cacheIndex (readKey.id.string googleUUID)).length = 2 ∧
    (readTwice.invalidateCache googleUUID readKey.id).cacheIndex.lookup
      (readKey.id.string googleUUID) = none :=
  ⟨by decide +kernel, ((cacheIndex_exact readTwice_reachable).2.2.2 readKey.id).1⟩

end CachedRepository

namespace CachedStore

open CachedRepository

variable {uuid : UUIDPkg} {st : CachedStore}

/-- The keys of the table carry their ids. -/
theorem carries_exec (t : Table) (now : Time) (op : RepoOp) :
    Carries op (PSQLAdapter.exec uuid now op t).1 := by
  cases op with
  | getKey id =>
    intro key hkey
    have hexec : PSQLAdapter.exec uuid now (.getKey id) t = (.ok key, t) := Prod.ext hkey rfl
    obtain ⟨r, hr, rfl, -⟩ := PSQLAdapter.exec_getKey.mp hexec
    exact (Table.latest_eq_some.mp hr).2.1
  | getKeyByVersion id v =>
    intro key hkey
    have hexec : PSQLAdapter.exec uuid now (.getKeyByVersion id v) t = (.ok key, t) :=
      Prod.ext hkey rfl
    by_cases hv : 0 < v
    · obtain ⟨r, hr, rfl, -⟩ := (PSQLAdapter.exec_getKeyByVersion hv).mp hexec
      exact (Table.atVersion_eq_some.mp hr).2.1
    · simp only [PSQLAdapter.exec, PSQLAdapter.getKeyByVersion, if_pos (not_lt.mp hv)] at hkey
      cases hkey
  | _ => trivial

/-- **The index is exact over the table**, in every run of `CachedStore`, whatever it reads and
writes. -/
theorem exact_of_run {cond : CachedStore → Time → RepoOp → Prop} {t : Table} {start : Time}
    (h : Relation.ReflTransGen (Step uuid cond) (CachedStore.new t start) st) :
    Exact uuid st.repo := by
  induction h with
  | refl => exact exact_new uuid
  | tail _ hstep ih =>
    cases hstep with
    | call hnow hlater hcond =>
      rw [call_eq_callThrough]
      exact ih.step (.call _ _ (carries_exec _ _ _))
    | cleanup hnow =>
      exact ih.evict (reports_expired (fun _ _ => Cache.lookup_deleteExpired _ _ _ _)
        fun _ _ => Cache.mem_deleteExpired)

end CachedStore

end Polykey
