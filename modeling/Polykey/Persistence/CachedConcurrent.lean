/-
# The caching repository under concurrency

`CachedRepository` as `CachedRepository.lean` has it, but with its calls taken apart.  A read is
four steps: the lookup in the cache, the read of the wrapped repository, the `Set`, and the insert
into the index.  A write is the write of the wrapped repository, a snapshot of the index, and a
`Delete` for each cache key in it.  Each of them is one step here, and any number of calls and the
cleanup loop take theirs in any order.  A `Delete` that removes an entry holds the lock of the cache
until its callback has cleaned the index, so other calls can use the index in between but not the
cache.

A reader that has its row and has not stored it yet is the one thing an invalidation cannot see.
If a write commits and invalidates in that gap, the reader stores the old row after the
invalidation, and it stays until it expires (`stale_refill`).  In the runs where no write commits in
the gap of a reader of the same id, entries are as they should be (`no_stale_refill`).

For the argument each id has a count of the writes committed on it, and each entry remembers the
count at which its row was read.  An entry read before the `n`th write is the business of that
write: until the call returns it either has its snapshot to take, or the entry's key is among those
it has yet to delete.  The counts are bookkeeping; no step looks at them.
-/
import Mathlib
import Polykey.Persistence.CachedRepository

namespace Polykey

namespace CachedConcurrent

open CachedRepository

/-! ## 1. Calls -/

/-- The reads that go through the cache. -/
inductive ReadOp
  | getKey (id : KeyID)
  | getKeyByVersion (id : KeyID) (version : Int)

namespace ReadOp

def id : ReadOp → KeyID
  | getKey id | getKeyByVersion id _ => id

/-- The version in the cache key; 0 stands for the latest. -/
def version : ReadOp → Int
  | getKey _ => 0
  | getKeyByVersion _ version => version

def cacheKey (uuid : UUIDPkg) (op : ReadOp) : String := getCacheKey uuid op.id op.version

/-- The wrapped repository's answer. -/
def exec (t : Table) : ReadOp → Except Err Key
  | getKey id => PSQLAdapter.getKey t id
  | getKeyByVersion id version => PSQLAdapter.getKeyByVersion t id version

end ReadOp

/-- The writes of one id. -/
inductive WriteOp
  | updateKeyMetadata (id : KeyID) (metadata : Option KeyMetadata)
  | rotateKey (id : KeyID) (newEncryptedDEK : Bytes)
  | revokeKey (id : KeyID)

namespace WriteOp

def id : WriteOp → KeyID
  | updateKeyMetadata id _ | rotateKey id _ | revokeKey id => id

def repo : WriteOp → RepoOp
  | updateKeyMetadata id metadata => .updateKeyMetadata id metadata
  | rotateKey id dek => .rotateKey id dek
  | revokeKey id => .revokeKey id

end WriteOp

/-- Where a read stands. -/
inductive ReadPhase
  /-- before the lookup in the cache -/
  | lookup
  /-- before the read of the wrapped repository -/
  | reading
  /-- before the `Set`; the row was read after so many writes of its id -/
  | storing (key : Key) (n : Nat)
  /-- before the insert into the index -/
  | indexing (key : Key) (n : Nat)
  | returned (answer : Except Err Key)

/-- Where a write stands.  Its number among the writes of its id comes with the commit. -/
inductive WritePhase
  | writing
  /-- before the snapshot of the index -/
  | committed (n : Nat)
  | deleting (n : Nat) (keysToDel : List String)
  | failed
  | returned (n : Nat)

/-- A call under way.  `floor` is the number of the last write that had returned when the read
started. -/
inductive Call
  | read (op : ReadOp) (floor : Nat) (phase : ReadPhase)
  | write (op : WriteOp) (phase : WritePhase)

namespace Call

def id : Call → KeyID
  | read op _ _ => op.id
  | write op _ => op.id

def isReturned : Call → Bool
  | read _ _ (.returned _) | write _ .failed | write _ (.returned _) => true
  | _ => false

/-- Has the read its row, and not stored it yet? -/
def isStoring : Call → Bool
  | read _ _ (.storing _ _) | read _ _ (.indexing _ _) => true
  | _ => false

/-- The cache key that is set and that the call has yet to index. -/
def unindexed (uuid : UUIDPkg) : Call → Option String
  | read op _ (.indexing _ _) => some (op.cacheKey uuid)
  | _ => none

/-- The id and the number of a write that is committed and has not returned. -/
def unsettled : Call → Option (KeyID × Nat)
  | write op (.committed n) | write op (.deleting n _) => some (op.id, n)
  | _ => none

end Call

/-- Who holds the lock of the cache. -/
inductive Lock
  | free
  /-- the `Delete` of a call, whose callback has not run -/
  | delete (call : Nat) (entry : String × Key)
  /-- the cleanup loop, with the cache keys it has yet to delete -/
  | sweep (todo : List String)
  /-- the cleanup loop, with a callback that has not run -/
  | evict (entry : String × Key) (todo : List String)

/-- The entry that is gone and still in the index. -/
def Lock.evicting : Lock → Option (String × Key)
  | delete _ entry | evict entry _ => some entry
  | free | sweep _ => none

/-! ## 2. Steps -/

structure State where
  repo : CachedRepository
  table : Table
  clock : Time
  lock : Lock
  calls : List Call
  /-- how many writes of an id have been committed -/
  version : KeyID → Nat
  /-- the table after so many of them -/
  tableAt : KeyID → Nat → Table
  /-- the last of them whose call has returned -/
  settled : KeyID → Nat
  /-- the number of writes after which the row of an entry was read -/
  origin : String → Nat

namespace State

def new (table : Table) (clock : Time) : State :=
  ⟨.new, table, clock, .free, [], fun _ => 0, fun _ _ => table, fun _ => 0, fun _ => 0⟩

def lookup (st : State) (cacheKey : String) : Option (Cache.Item Key) :=
  st.repo.cache.items.lookup cacheKey

def setCall (st : State) (i : Nat) (c : Call) : State := { st with calls := st.calls.set i c }

/-- The commit of a write. -/
def commit (st : State) (id : KeyID) (t' : Table) : State :=
  { st with
    table := t'
    version := Function.update st.version id (st.version id + 1)
    tableAt := fun id' n => if id' = id ∧ n = st.version id + 1 then t' else st.tableAt id' n }

/-- The end of a write. -/
def settle (st : State) (id : KeyID) (n : Nat) : State :=
  { st with settled := Function.update st.settled id (max (st.settled id) n) }

/-- `cache.Set` in `storeInCache`. -/
def store (st : State) (now : Time) (cacheKey : String) (key : Key) (n : Nat) : State :=
  { st with
    repo := { st.repo with cache := st.repo.cache.set now cacheKey key 0 }
    clock := now
    origin := Function.update st.origin cacheKey n }

/-- The critical section of `storeInCache`. -/
def index (uuid : UUIDPkg) (st : State) (cacheKey : String) (key : Key) : State :=
  { st with
    repo := { st.repo with
      cacheIndex := st.repo.cacheIndex.insert (key.id.string uuid)
        ((cacheKeys st.repo.cacheIndex (key.id.string uuid)).insert cacheKey) } }

/-- The removal of an entry from the cache, up to the callback. -/
def remove (st : State) (cacheKey : String) (lock : Lock) : State :=
  { st with
    repo := { st.repo with cache := (st.repo.cache.delete cacheKey).1 }
    lock }

/-- The callback. -/
def unindex (uuid : UUIDPkg) (st : State) (entry : String × Key) (lock : Lock) : State :=
  { st with
    repo := { st.repo with cacheIndex := onCacheEvict uuid st.repo.cacheIndex entry }
    lock }

end State

/-- One step.  `cond` is asked of the state in which a write of an id commits. -/
inductive Step (uuid : UUIDPkg) (cond : State → KeyID → Prop) : State → State → Prop
  | wait {st : State} {now : Time} (hnow : st.clock ≤ now) :
    Step uuid cond st { st with clock := now }
  | startRead {st : State} (op : ReadOp) :
    Step uuid cond st { st with calls := st.calls ++ [.read op (st.settled op.id) .lookup] }
  | startWrite {st : State} (op : WriteOp) :
    Step uuid cond st { st with calls := st.calls ++ [.write op .writing] }
  | hit {st : State} {i floor : Nat} {op : ReadOp} {key : Key}
    (hcall : st.calls[i]? = some (.read op floor .lookup)) (hlock : st.lock = .free)
    (hget : st.repo.cache.get st.clock (op.cacheKey uuid) = some key) :
    Step uuid cond st (st.setCall i (.read op floor (.returned (.ok key))))
  | miss {st : State} {i floor : Nat} {op : ReadOp}
    (hcall : st.calls[i]? = some (.read op floor .lookup)) (hlock : st.lock = .free)
    (hget : st.repo.cache.get st.clock (op.cacheKey uuid) = none) :
    Step uuid cond st (st.setCall i (.read op floor .reading))
  /-- the wrapped repository's error, or one of the connection -/
  | readError {st : State} {i floor : Nat} {op : ReadOp} (e : Err)
    (hcall : st.calls[i]? = some (.read op floor .reading)) :
    Step uuid cond st (st.setCall i (.read op floor (.returned (.error e))))
  | read {st : State} {i floor : Nat} {op : ReadOp} {key : Key}
    (hcall : st.calls[i]? = some (.read op floor .reading)) (hread : op.exec st.table = .ok key) :
    Step uuid cond st (st.setCall i (.read op floor (.storing key (st.version op.id))))
  | set {st : State} {i floor n : Nat} {op : ReadOp} {key : Key}
    (hcall : st.calls[i]? = some (.read op floor (.storing key n))) (hlock : st.lock = .free) :
    Step uuid cond st ((st.store st.clock (op.cacheKey uuid) key n).setCall i
      (.read op floor (.indexing key n)))
  | index {st : State} {i floor n : Nat} {op : ReadOp} {key : Key}
    (hcall : st.calls[i]? = some (.read op floor (.indexing key n))) :
    Step uuid cond st ((st.index uuid (op.cacheKey uuid) key).setCall i
      (.read op floor (.returned (.ok key))))
  | writeError {st : State} {i : Nat} {op : WriteOp}
    (hcall : st.calls[i]? = some (.write op .writing)) :
    Step uuid cond st (st.setCall i (.write op .failed))
  | commit {st : State} {i : Nat} {op : WriteOp} {a : op.repo.Result} {t' : Table}
    (hcall : st.calls[i]? = some (.write op .writing)) (hcond : cond st op.id)
    (hwrite : PSQLAdapter.exec uuid st.clock op.repo st.table = (.ok a, t')) :
    Step uuid cond st ((st.commit op.id t').setCall i
      (.write op (.committed (st.version op.id + 1))))
  /-- the keys of a map come in any order -/
  | snapshot {st : State} {i n : Nat} {op : WriteOp} {keysToDel : List String}
    (hcall : st.calls[i]? = some (.write op (.committed n)))
    (hkeys : keysToDel.Perm (cacheKeys st.repo.cacheIndex (op.id.string uuid))) :
    Step uuid cond st (st.setCall i (.write op (.deleting n keysToDel)))
  | deleteNone {st : State} {i n : Nat} {op : WriteOp} {cacheKey : String} {rest : List String}
    (hcall : st.calls[i]? = some (.write op (.deleting n (cacheKey :: rest))))
    (hlock : st.lock = .free) (hlookup : st.lookup cacheKey = none) :
    Step uuid cond st (st.setCall i (.write op (.deleting n rest)))
  | delete {st : State} {i n : Nat} {op : WriteOp} {cacheKey : String} {rest : List String}
    {item : Cache.Item Key}
    (hcall : st.calls[i]? = some (.write op (.deleting n (cacheKey :: rest))))
    (hlock : st.lock = .free) (hlookup : st.lookup cacheKey = some item) :
    Step uuid cond st ((st.remove cacheKey (.delete i (cacheKey, item.value))).setCall i
      (.write op (.deleting n rest)))
  | callback {st : State} {i : Nat} {entry : String × Key} (hlock : st.lock = .delete i entry) :
    Step uuid cond st (st.unindex uuid entry .free)
  | finish {st : State} {i n : Nat} {op : WriteOp}
    (hcall : st.calls[i]? = some (.write op (.deleting n [])))
    (hlock : ∀ entry, st.lock ≠ .delete i entry) :
    Step uuid cond st ((st.settle op.id n).setCall i (.write op (.returned n)))
  | sweep {st : State} {todo : List String} (hlock : st.lock = .free)
    (htodo : todo.Perm ((st.repo.cache.deleteExpired st.clock).2.map Prod.fst)) :
    Step uuid cond st { st with lock := .sweep todo }
  | sweepDelete {st : State} {cacheKey : String} {rest : List String} {item : Cache.Item Key}
    (hlock : st.lock = .sweep (cacheKey :: rest)) (hlookup : st.lookup cacheKey = some item) :
    Step uuid cond st (st.remove cacheKey (.evict (cacheKey, item.value) rest))
  | sweepCallback {st : State} {entry : String × Key} {todo : List String}
    (hlock : st.lock = .evict entry todo) :
    Step uuid cond st (st.unindex uuid entry (.sweep todo))
  | sweepEnd {st : State} (hlock : st.lock = .sweep []) :
    Step uuid cond st { st with lock := .free }

/-- Runs in which each commit meets the condition. -/
abbrev Runs (uuid : UUIDPkg) (cond : State → KeyID → Prop) : State → State → Prop :=
  Relation.ReflTransGen (Step uuid cond)

/-- No read of the id has its row and has not stored it yet. -/
def NoneStoring (st : State) (id : KeyID) : Prop :=
  ∀ c ∈ st.calls, c.id = id → c.isStoring = false

/-! ## 3. The invariant

An entry is sound if its row was read after the last write that has returned. For writes that
have not returned, `Coherent` says who still has to delete the entry. -/

section Invariant

variable {uuid : UUIDPkg} {st st' : State}

/-- After `n` writes of the id, the key was what is read for it. -/
def ReadAt (st : State) (id : KeyID) (v : Int) (n : Nat) (key : Key) : Prop :=
  0 ≤ v ∧ ((st.tableAt id n).requested id v).map Row.scan = some key

/-- An entry stands under the cache key of an id and a version, and is the row that was read for
them after so many writes of the id, none of which has returned since. -/
def Sourced (uuid : UUIDPkg) (st : State) (cacheKey : String) (item : Cache.Item Key) : Prop :=
  ∃ v, cacheKey = getCacheKey uuid item.value.id v ∧
    ReadAt st item.value.id v (st.origin cacheKey) item.value ∧
    st.settled item.value.id ≤ st.origin cacheKey ∧
    st.origin cacheKey ≤ st.version item.value.id

/-- What holds of a call in its phase. -/
def Call.Ok (uuid : UUIDPkg) (st : State) : Call → Prop
  | .read op floor phase => floor ≤ st.settled op.id ∧
    match phase with
    | .lookup | .reading | .returned (.error _) => True
    | .storing key n => n = st.version op.id ∧ key.id = op.id ∧ ReadAt st op.id op.version n key
    | .indexing key n => key.id = op.id ∧ floor ≤ n ∧ n ≤ st.version op.id ∧
        ReadAt st op.id op.version n key ∧
        (st.lookup (op.cacheKey uuid) ≠ none → st.origin (op.cacheKey uuid) = st.version op.id)
    | .returned (.ok key) => ∃ n, floor ≤ n ∧ n ≤ st.version op.id ∧
        ReadAt st op.id op.version n key
  | .write op phase =>
    match phase with
    | .writing | .failed => True
    | .committed n => n ≤ st.version op.id
    | .deleting n keysToDel => n ≤ st.version op.id ∧
        ∀ cacheKey item, st.lookup cacheKey = some item → item.value.id = op.id →
          st.origin cacheKey < n → cacheKey ∈ keysToDel
    | .returned n => n ≤ st.settled op.id

structure Coherent (uuid : UUIDPkg) (st : State) : Prop where
  entries : ∀ cacheKey item, st.lookup cacheKey = some item → Sourced uuid st cacheKey item
  /-- every entry is indexed, or about to be -/
  indexed : ∀ cacheKey item, st.lookup cacheKey = some item →
    cacheKey ∈ cacheKeys st.repo.cacheIndex (item.value.id.string uuid) ∨
      ∃ c ∈ st.calls, c.unindexed uuid = some cacheKey
  calls : ∀ c ∈ st.calls, c.Ok uuid st
  /-- the rows of an id are those after its last write -/
  current : ∀ id, (st.tableAt id (st.version id)).versionsOf id = st.table.versionsOf id
  settled_le : ∀ id, st.settled id ≤ st.version id
  /-- the last write of an id has returned, or is under way -/
  latest : ∀ id, st.settled id = st.version id ∨
    ∃ c ∈ st.calls, c.unsettled = some (id, st.version id)
  /-- nothing stands under a cache key whose callback is to run -/
  evicted : ∀ entry, st.lock.evicting = some entry → st.lookup entry.1 = none

/-! ### How the others' steps look to a call -/

/-- What a call can rely on while the others make a step. -/
structure Moves (st st' : State) : Prop where
  settled : ∀ id, st.settled id ≤ st'.settled id
  version : ∀ id, st.version id ≤ st'.version id
  tableAt : ∀ id n, n ≤ st.version id → st'.tableAt id n = st.tableAt id n
  /-- an entry was there, or is as new as can be -/
  entries : ∀ cacheKey item, st'.lookup cacheKey = some item →
    st.lookup cacheKey = some item ∧ st'.origin cacheKey = st.origin cacheKey ∨
      st'.origin cacheKey = st'.version item.value.id
  /-- no write of an id commits while a read of it stores its row -/
  storing : ∀ c ∈ st.calls, c.isStoring = true → st'.version c.id = st.version c.id

theorem Moves.readAt (h : Moves st st') {id : KeyID} {v : Int} {n : Nat} {key : Key}
    (hn : n ≤ st.version id) (hread : ReadAt st id v n key) : ReadAt st' id v n key := by
  unfold ReadAt
  rw [h.tableAt id n hn]
  exact hread

/-- **A call stays as it should be while the others move.** -/
theorem Call.Ok.moves {c : Call} (h : c.Ok uuid st) (hmem : c ∈ st.calls) (hmoves : Moves st st')
    (hentries : ∀ cacheKey item, st'.lookup cacheKey = some item →
      ∃ v, cacheKey = getCacheKey uuid item.value.id v) : c.Ok uuid st' := by
  cases c with
  | read op floor phase =>
    obtain ⟨hfloor, hphase⟩ := h
    have hversion := hmoves.version op.id
    refine ⟨hfloor.trans (hmoves.settled _), ?_⟩
    cases phase with
    | lookup | reading => trivial
    | storing key n =>
      obtain ⟨rfl, hid, hread⟩ := hphase
      have hsame : st'.version op.id = st.version op.id := hmoves.storing _ hmem rfl
      exact ⟨hsame.symm, hid, hmoves.readAt (le_refl _) hread⟩
    | indexing key n =>
      obtain ⟨hid, hle, hn, hread, horigin⟩ := hphase
      have hsame : st'.version op.id = st.version op.id := hmoves.storing _ hmem rfl
      refine ⟨hid, hle, hn.trans hversion, hmoves.readAt hn hread, ?_⟩
      intro hsome
      obtain ⟨item, hitem⟩ := Option.ne_none_iff_exists'.mp hsome
      rcases hmoves.entries _ item hitem with ⟨hold, hsource⟩ | hnew
      · rw [hsource, horigin (by simp [hold]), hsame]
      · obtain ⟨v, hkey⟩ := hentries _ item hitem
        rw [hnew, (getCacheKey_injective hkey).1]
    | returned answer =>
      cases answer with
      | error e => trivial
      | ok key =>
        obtain ⟨n, hle, hn, hread⟩ := hphase
        exact ⟨n, hle, hn.trans hversion, hmoves.readAt hn hread⟩
  | write op phase =>
    cases phase with
    | writing | failed => trivial
    | committed n => exact le_trans h (hmoves.version _)
    | deleting n keysToDel =>
      obtain ⟨hn, hcover⟩ := h
      refine ⟨hn.trans (hmoves.version _), ?_⟩
      intro cacheKey item hitem hid hlt
      rcases hmoves.entries cacheKey item hitem with ⟨hold, hsource⟩ | hnew
      · exact hcover cacheKey item hold hid (hsource ▸ hlt)
      · have hversion := hmoves.version op.id
        rw [hnew, hid] at hlt
        omega
    | returned n => exact le_trans h (hmoves.settled _)

/-! ## 4. What each step keeps

A step is one call going on to its next phase, mostly with nothing else happening. What the
others may rely on meanwhile is `Moves`, so that each step is shown to be such a move and only
the call that makes it is looked at. -/

/-- A call in the list, after another call has taken its place. -/
theorem mem_set_or {calls : List Call} {i : Nat} {c x : Call} (c' : Call)
    (hcall : calls[i]? = some c) (hx : x ∈ calls) : x = c ∨ x ∈ calls.set i c' := by
  obtain ⟨j, hj⟩ := List.mem_iff_getElem?.mp hx
  by_cases hij : i = j
  · subst hij
    rw [hcall] at hj
    exact .inl (Option.some.inj hj).symm
  · right
    refine List.mem_iff_getElem?.mpr ⟨j, ?_⟩
    rw [List.getElem?_set_ne hij]
    exact hj

theorem mem_set_self {calls : List Call} {i : Nat} {c c' : Call} (hcall : calls[i]? = some c) :
    c' ∈ calls.set i c' := by
  obtain ⟨hlt, -⟩ := List.getElem?_eq_some_iff.mp hcall
  exact List.mem_iff_getElem?.mpr ⟨i, List.getElem?_set_self hlt⟩

/-- What some call does, some call still does, unless the one that moved stops doing it. -/
theorem exists_mem_set {calls : List Call} {i : Nat} {c c' : Call} {P : Call → Prop}
    (hcall : calls[i]? = some c) (hP : P c → P c') (h : ∃ x ∈ calls, P x) :
    ∃ x ∈ calls.set i c', P x := by
  obtain ⟨x, hx, hPx⟩ := h
  rcases mem_set_or c' hcall hx with rfl | hx
  · exact ⟨c', mem_set_self hcall, hP hPx⟩
  · exact ⟨x, hx, hPx⟩

theorem Moves.of_same (hsettled : st'.settled = st.settled) (hversion : st'.version = st.version)
    (htableAt : st'.tableAt = st.tableAt) (horigin : st'.origin = st.origin)
    (hlookup : ∀ cacheKey item, st'.lookup cacheKey = some item →
      st.lookup cacheKey = some item) : Moves st st' where
  settled id := by rw [hsettled]
  version id := by rw [hversion]
  tableAt id n _ := by rw [htableAt]
  entries cacheKey item h := .inl ⟨hlookup cacheKey item h, by rw [horigin]⟩
  storing c _ _ := by rw [hversion]

/-- An entry that was there, while no write of its id returns. -/
theorem Sourced.moves {cacheKey : String} {item : Cache.Item Key}
    (h : Sourced uuid st cacheKey item) (hmoves : Moves st st')
    (horigin : st'.origin cacheKey = st.origin cacheKey)
    (hsettled : st'.settled item.value.id ≤ st.origin cacheKey) :
    Sourced uuid st' cacheKey item := by
  obtain ⟨v, hkey, hread, -, hle⟩ := h
  refine ⟨v, hkey, ?_, ?_, ?_⟩
  · rw [horigin]
    exact hmoves.readAt hle hread
  · rw [horigin]
    exact hsettled
  · rw [horigin]
    exact hle.trans (hmoves.version _)

theorem Sourced.le {cacheKey : String} {item : Cache.Item Key}
    (h : Sourced uuid st cacheKey item) : st.settled item.value.id ≤ st.origin cacheKey := by
  obtain ⟨v, -, -, hle, -⟩ := h
  exact hle

/-- One call goes on to its next phase, and nothing else happens. -/
theorem Coherent.setCall (h : Coherent uuid st) {i : Nat} {c c' : Call}
    (hcall : st.calls[i]? = some c) (hindexed : c'.unindexed uuid = c.unindexed uuid)
    (hsettled : c'.unsettled = c.unsettled) (hok : c'.Ok uuid st) :
    Coherent uuid (st.setCall i c') where
  entries := h.entries
  indexed cacheKey item hitem := by
    rcases h.indexed cacheKey item hitem with hmem | hpending
    · exact .inl hmem
    · exact .inr (exists_mem_set hcall (fun hc => hindexed.trans hc) hpending)
  calls x hx := by
    rcases List.mem_or_eq_of_mem_set hx with hx | rfl
    · exact h.calls x hx
    · exact hok
  current := h.current
  settled_le := h.settled_le
  latest id := by
    rcases h.latest id with heq | hunder
    · exact .inl heq
    · exact .inr (exists_mem_set hcall (fun hc => hsettled.trans hc) hunder)
  evicted := h.evicted

/-- A call starts. -/
theorem Coherent.addCall (h : Coherent uuid st) {c : Call} (hok : c.Ok uuid st) :
    Coherent uuid { st with calls := st.calls ++ [c] } where
  entries := h.entries
  indexed cacheKey item hitem := by
    rcases h.indexed cacheKey item hitem with hmem | ⟨x, hx, hpending⟩
    · exact .inl hmem
    · exact .inr ⟨x, by simp [hx], hpending⟩
  calls x hx := by
    rcases List.mem_append.mp hx with hx | hx
    · exact h.calls x hx
    · rw [List.mem_singleton.mp hx]
      exact hok
  current := h.current
  settled_le := h.settled_le
  latest id := by
    rcases h.latest id with heq | ⟨x, hx, hunder⟩
    · exact .inl heq
    · exact .inr ⟨x, by simp [hx], hunder⟩
  evicted := h.evicted

/-- Time passes, and the lock changes hands without an eviction. -/
theorem Coherent.setLock (h : Coherent uuid st) {clock : Time} {lock : Lock}
    (hlock : lock.evicting = none ∨ lock = st.lock) :
    Coherent uuid { st with clock, lock } where
  entries := h.entries
  indexed := h.indexed
  calls := h.calls
  current := h.current
  settled_le := h.settled_le
  latest := h.latest
  evicted entry hentry := by
    rcases hlock with hnone | rfl
    · simp only [hnone] at hentry
      cases hentry
    · exact h.evicted entry hentry

/-- The shared state moves, and one call goes on to its next phase. -/
theorem Coherent.of_moves (h : Coherent uuid st) {i : Nat} {c' : Call} (hmoves : Moves st st')
    (hcalls : st'.calls = st.calls)
    (hentries : ∀ cacheKey item, st'.lookup cacheKey = some item → Sourced uuid st' cacheKey item)
    (hindexed : ∀ cacheKey item, st'.lookup cacheKey = some item →
      cacheKey ∈ cacheKeys st'.repo.cacheIndex (item.value.id.string uuid) ∨
        ∃ x ∈ st.calls.set i c', x.unindexed uuid = some cacheKey)
    (hok : c'.Ok uuid st')
    (hcurrent : ∀ id, (st'.tableAt id (st'.version id)).versionsOf id = st'.table.versionsOf id)
    (hsettled : ∀ id, st'.settled id ≤ st'.version id)
    (hlatest : ∀ id, st'.settled id = st'.version id ∨
      ∃ x ∈ st.calls.set i c', x.unsettled = some (id, st'.version id))
    (hevicted : ∀ entry, st'.lock.evicting = some entry → st'.lookup entry.1 = none) :
    Coherent uuid (st'.setCall i c') := by
  have hset : (st'.setCall i c').calls = st.calls.set i c' := by rw [State.setCall, hcalls]
  refine ⟨hentries, ?_, ?_, hcurrent, hsettled, ?_, hevicted⟩
  · rw [hset]
    exact hindexed
  · intro x hx
    rw [hset] at hx
    rcases List.mem_or_eq_of_mem_set hx with hx | rfl
    · have hothers : x.Ok uuid st' := by
        refine (h.calls x hx).moves hx hmoves ?_
        intro cacheKey item hitem
        obtain ⟨v, hkey, -⟩ := hentries cacheKey item hitem
        exact ⟨v, hkey⟩
      exact hothers
    · exact hok
  · rw [hset]
    exact hlatest

/-! ### Entries go -/

theorem lookup_remove {cacheKey cacheKey' : String} {lock : Lock} {item : Cache.Item Key}
    (h : (st.remove cacheKey lock).lookup cacheKey' = some item) :
    cacheKey' ≠ cacheKey ∧ st.lookup cacheKey' = some item := by
  have hne : cacheKey' ≠ cacheKey := by
    rintro rfl
    simp [State.lookup, State.remove, Cache.lookup_delete_self] at h
  refine ⟨hne, ?_⟩
  simpa [State.lookup, State.remove, Cache.lookup_delete_ne _ hne] using h

theorem Coherent.remove (h : Coherent uuid st) {cacheKey : String} {lock : Lock} {key : Key}
    (hlock : lock.evicting = some (cacheKey, key)) : Coherent uuid (st.remove cacheKey lock) := by
  have hmoves : Moves st (st.remove cacheKey lock) :=
    .of_same rfl rfl rfl rfl fun _ _ hitem => (lookup_remove hitem).2
  refine ⟨?_, ?_, ?_, h.current, h.settled_le, h.latest, ?_⟩
  · intro cacheKey' item hitem
    exact h.entries cacheKey' item (lookup_remove hitem).2
  · intro cacheKey' item hitem
    exact h.indexed cacheKey' item (lookup_remove hitem).2
  · intro c hc
    refine (h.calls c hc).moves hc hmoves ?_
    intro cacheKey' item hitem
    obtain ⟨v, hkey, -⟩ := h.entries cacheKey' item (lookup_remove hitem).2
    exact ⟨v, hkey⟩
  · intro entry hentry
    have heq : (cacheKey, key) = entry := Option.some.inj (hlock.symm.trans hentry)
    subst heq
    simp [State.lookup, State.remove, Cache.lookup_delete_self]

theorem Coherent.unindex (h : Coherent uuid st) {entry : String × Key} {lock : Lock}
    (hentry : st.lock.evicting = some entry) (hlock : lock.evicting = none) :
    Coherent uuid (st.unindex uuid entry lock) where
  entries := h.entries
  indexed cacheKey item hitem := by
    have hne : cacheKey ≠ entry.1 := by
      rintro rfl
      have hgone : st.lookup entry.1 = some item := hitem
      rw [h.evicted entry hentry] at hgone
      cases hgone
    rcases h.indexed cacheKey item hitem with hmem | hpending
    · exact .inl (mem_onCacheEvict hmem hne)
    · exact .inr hpending
  calls := h.calls
  current := h.current
  settled_le := h.settled_le
  latest := h.latest
  evicted entry' hentry' := by
    rw [show (st.unindex uuid entry lock).lock = lock from rfl, hlock] at hentry'
    cases hentry'

/-! ### A row is stored -/

theorem lookup_store_self (now : Time) (cacheKey : String) (key : Key) (n : Nat) :
    ∃ item, (st.store now cacheKey key n).lookup cacheKey = some item ∧ item.value = key :=
  ⟨_, Cache.lookup_set_self _ _ _ _ _, Cache.makeItem_value _ _ _ _⟩

theorem lookup_store_ne (now : Time) {cacheKey cacheKey' : String} (key : Key) (n : Nat)
    (h : cacheKey' ≠ cacheKey) :
    (st.store now cacheKey key n).lookup cacheKey' = st.lookup cacheKey' ∧
      (st.store now cacheKey key n).origin cacheKey' = st.origin cacheKey' :=
  ⟨Cache.lookup_set_ne _ _ _ _ h, Function.update_of_ne h _ _⟩

/-- The new entry, or one that was there. -/
theorem lookup_store {now : Time} {cacheKey cacheKey' : String} {key : Key} {n : Nat}
    {item : Cache.Item Key} (h : (st.store now cacheKey key n).lookup cacheKey' = some item) :
    cacheKey' = cacheKey ∧ item.value = key ∧ (st.store now cacheKey key n).origin cacheKey' = n ∨
      st.lookup cacheKey' = some item ∧
        (st.store now cacheKey key n).origin cacheKey' = st.origin cacheKey' := by
  by_cases hk : cacheKey' = cacheKey
  · subst hk
    obtain ⟨item', hitem', rfl⟩ := lookup_store_self now cacheKey' key n
    rw [h] at hitem'
    cases hitem'
    exact .inl ⟨rfl, rfl, Function.update_self _ _ _⟩
  · obtain ⟨hlookup, horigin⟩ := lookup_store_ne now key n hk
    exact .inr ⟨hlookup ▸ h, horigin⟩

theorem Coherent.set (h : Coherent uuid st) {i floor n : Nat} {op : ReadOp} {key : Key}
    (hcall : st.calls[i]? = some (.read op floor (.storing key n))) (hlock : st.lock = .free) :
    Coherent uuid ((st.store st.clock (op.cacheKey uuid) key n).setCall i
      (.read op floor (.indexing key n))) := by
  obtain ⟨hfloor, rfl, hid, hread⟩ := h.calls _ (List.mem_of_getElem? hcall)
  have hmoves : Moves st (st.store st.clock (op.cacheKey uuid) key (st.version op.id)) := by
    refine ⟨fun _ => le_refl _, fun _ => le_refl _, fun _ _ _ => rfl, ?_, fun _ _ _ => rfl⟩
    intro cacheKey item hitem
    rcases lookup_store hitem with ⟨-, rfl, horigin⟩ | hold
    · right
      rw [horigin, ← hid]
      rfl
    · exact .inl hold
  refine h.of_moves hmoves rfl ?_ ?_ ?_ h.current h.settled_le ?_ ?_
  · intro cacheKey item hitem
    rcases lookup_store hitem with ⟨rfl, rfl, horigin⟩ | ⟨hold, horigin⟩
    · refine ⟨op.version, by rw [hid]; rfl, ?_, ?_, ?_⟩
      · rw [horigin, hid]
        exact hread
      · rw [horigin, hid]
        exact h.settled_le _
      · rw [horigin, hid]
        exact le_refl _
    · exact (h.entries cacheKey item hold).moves hmoves horigin (h.entries cacheKey item hold).le
  · intro cacheKey item hitem
    rcases lookup_store hitem with ⟨rfl, -, -⟩ | ⟨hold, -⟩
    · exact .inr ⟨_, mem_set_self hcall, rfl⟩
    · exact (h.indexed cacheKey item hold).imp_right
        (exists_mem_set hcall (by simp [Call.unindexed]))
  · refine ⟨hfloor, hid, hfloor.trans (h.settled_le _), le_refl _, hread, ?_⟩
    intro _
    exact Function.update_self _ _ _
  · intro id
    exact (h.latest id).imp_right (exists_mem_set hcall (by simp [Call.unsettled]))
  · intro entry hentry
    have hfree : st.lock.evicting = some entry := hentry
    rw [hlock] at hfree
    cases hfree

/-- The reader enters its cache key into the index. -/
theorem Coherent.index (h : Coherent uuid st) {i floor n : Nat} {op : ReadOp} {key : Key}
    (hcall : st.calls[i]? = some (.read op floor (.indexing key n))) :
    Coherent uuid ((st.index uuid (op.cacheKey uuid) key).setCall i
      (.read op floor (.returned (.ok key)))) := by
  obtain ⟨hfloor, hid, hle, hn, hread, -⟩ := h.calls _ (List.mem_of_getElem? hcall)
  refine ⟨h.entries, ?_, ?_, h.current, h.settled_le, ?_, h.evicted⟩
  · intro cacheKey item hitem
    obtain ⟨v, hkey, -⟩ := h.entries cacheKey item hitem
    have hgrow : cacheKey ∈ cacheKeys st.repo.cacheIndex (item.value.id.string uuid) ∨
        cacheKey = op.cacheKey uuid →
        cacheKey ∈ cacheKeys (st.index uuid (op.cacheKey uuid) key).repo.cacheIndex
          (item.value.id.string uuid) := by
      intro hmem
      by_cases hsame : item.value.id.string uuid = key.id.string uuid
      · rw [hsame] at hmem ⊢
        rw [State.index, cacheKeys_insert_self]
        rcases hmem with hmem | rfl
        · exact List.mem_insert_of_mem hmem
        · exact List.mem_insert_self
      · rw [State.index, cacheKeys_insert_ne _ hsame]
        rcases hmem with hmem | heq
        · exact hmem
        · -- the cache key is of the reader's id
          rw [hkey] at heq
          rw [(getCacheKey_injective heq).1, hid] at hsame
          exact absurd rfl hsame
    rcases h.indexed cacheKey item hitem with hmem | ⟨x, hx, hpending⟩
    · exact .inl (hgrow (.inl hmem))
    · rcases mem_set_or _ hcall hx with rfl | hx
      · exact .inl (hgrow (.inr (Option.some.inj hpending).symm))
      · exact .inr ⟨x, hx, hpending⟩
  · intro c hc
    rcases List.mem_or_eq_of_mem_set hc with hc | rfl
    · exact h.calls c hc
    · exact ⟨hfloor, n, hle, hn, hread⟩
  · intro id
    rcases h.latest id with heq | hunder
    · exact .inl heq
    · refine .inr (exists_mem_set hcall ?_ hunder)
      intro hnone
      cases hnone

/-! ### A write commits, and returns -/

theorem versionsOf_of_exec {op : WriteOp} {now : Time} {a : op.repo.Result} {t t' : Table}
    (hwrite : PSQLAdapter.exec uuid now op.repo t = (.ok a, t')) {id : KeyID} (hid : id ≠ op.id) :
    t'.versionsOf id = t.versionsOf id := by
  refine (PSQLAdapter.exec_change hwrite).versionsOf ?_
  cases op <;> simpa [WriteOp.repo, RepoOp.touched, WriteOp.id] using hid

theorem Coherent.commit (h : Coherent uuid st) {i : Nat} {op : WriteOp} {t' : Table}
    (hcall : st.calls[i]? = some (.write op .writing)) (hcond : NoneStoring st op.id)
    (hrows : ∀ id, id ≠ op.id → t'.versionsOf id = st.table.versionsOf id) :
    Coherent uuid ((st.commit op.id t').setCall i
      (.write op (.committed (st.version op.id + 1)))) := by
  have hself : (st.commit op.id t').version op.id = st.version op.id + 1 :=
    Function.update_self _ _ _
  have hother : ∀ id, id ≠ op.id → (st.commit op.id t').version id = st.version id :=
    fun id hid => Function.update_of_ne hid _ _
  have hversion : ∀ id, st.version id ≤ (st.commit op.id t').version id := by
    intro id
    by_cases hid : id = op.id
    · rw [hid, hself]
      omega
    · rw [hother id hid]
  have htableAt : ∀ id n, n ≤ st.version id →
      (st.commit op.id t').tableAt id n = st.tableAt id n := by
    intro id n hn
    refine if_neg ?_
    rintro ⟨rfl, rfl⟩
    omega
  have hmoves : Moves st (st.commit op.id t') := by
    refine ⟨fun _ => le_refl _, hversion, htableAt, fun _ _ hitem => .inl ⟨hitem, rfl⟩, ?_⟩
    intro c hc hstoring
    by_cases hid : c.id = op.id
    · rw [hcond c hc hid] at hstoring
      cases hstoring
    · exact hother _ hid
  refine h.of_moves hmoves rfl ?_ ?_ hself.ge ?_ ?_ ?_ h.evicted
  · intro cacheKey item hitem
    exact (h.entries cacheKey item hitem).moves hmoves rfl (h.entries cacheKey item hitem).le
  · intro cacheKey item hitem
    exact (h.indexed cacheKey item hitem).imp_right
      (exists_mem_set hcall (by simp [Call.unindexed]))
  · intro id
    by_cases hid : id = op.id
    · subst hid
      have htable : (st.commit op.id t').tableAt op.id (st.version op.id + 1) = t' :=
        if_pos ⟨rfl, rfl⟩
      rw [hself, htable]
      rfl
    · rw [hother id hid, htableAt id _ (le_refl _), h.current id]
      exact (hrows id hid).symm
  · intro id
    exact (h.settled_le id).trans (hversion id)
  · intro id
    by_cases hid : id = op.id
    · subst hid
      refine .inr ⟨_, mem_set_self hcall, ?_⟩
      rw [hself]
      rfl
    · rw [hother id hid]
      exact (h.latest id).imp_right (exists_mem_set hcall (by simp [Call.unsettled]))

/-- A write returns: it has deleted every entry that was read before it. -/
theorem Coherent.finish (h : Coherent uuid st) {i n : Nat} {op : WriteOp}
    (hcall : st.calls[i]? = some (.write op (.deleting n []))) :
    Coherent uuid ((st.settle op.id n).setCall i (.write op (.returned n))) := by
  obtain ⟨hn, hcover⟩ := h.calls _ (List.mem_of_getElem? hcall)
  have hself : (st.settle op.id n).settled op.id = max (st.settled op.id) n :=
    Function.update_self _ _ _
  have hother : ∀ id, id ≠ op.id → (st.settle op.id n).settled id = st.settled id :=
    fun id hid => Function.update_of_ne hid _ _
  have hsettled : ∀ id, st.settled id ≤ (st.settle op.id n).settled id := by
    intro id
    by_cases hid : id = op.id
    · rw [hid, hself]
      omega
    · rw [hother id hid]
  have hmoves : Moves st (st.settle op.id n) :=
    ⟨hsettled, fun _ => le_refl _, fun _ _ _ => rfl, fun _ _ hitem => .inl ⟨hitem, rfl⟩,
      fun _ _ _ => rfl⟩
  refine h.of_moves hmoves rfl ?_ ?_ ?_ h.current ?_ ?_ h.evicted
  · intro cacheKey item hitem
    refine (h.entries cacheKey item hitem).moves hmoves rfl ?_
    have hle := (h.entries cacheKey item hitem).le
    by_cases hid : item.value.id = op.id
    · have hnot : ¬ st.origin cacheKey < n := by
        intro hlt
        simpa using hcover cacheKey item hitem hid hlt
      rw [hid] at hle ⊢
      rw [hself]
      omega
    · rw [hother _ hid]
      exact hle
  · intro cacheKey item hitem
    exact (h.indexed cacheKey item hitem).imp_right
      (exists_mem_set hcall (by simp [Call.unindexed]))
  · show n ≤ (st.settle op.id n).settled op.id
    rw [hself]
    omega
  · intro id
    have hle := h.settled_le id
    show (st.settle op.id n).settled id ≤ st.version id
    by_cases hid : id = op.id
    · rw [hid] at hle ⊢
      rw [hself]
      omega
    · rw [hother id hid]
      exact hle
  · intro id
    show (st.settle op.id n).settled id = st.version id ∨ _
    by_cases hid : id = op.id
    · subst hid
      rw [hself]
      have hle := h.settled_le op.id
      rcases h.latest op.id with heq | ⟨x, hx, hunder⟩
      · left
        omega
      · rcases mem_set_or (.write op (.returned n)) hcall hx with rfl | hx
        · simp only [Call.unsettled, Option.some.injEq, Prod.mk.injEq, true_and] at hunder
          left
          omega
        · exact .inr ⟨x, hx, hunder⟩
    · rw [hother id hid]
      refine (h.latest id).imp_right (exists_mem_set hcall ?_)
      intro hunder
      simp only [Call.unsettled, Option.some.injEq, Prod.mk.injEq] at hunder
      exact absurd hunder.1.symm hid

/-! ## 5. Runs

The last write that had returned when a read started is its floor. An answer is never older than
the floor, and a read that starts after a write has returned has a floor at least as high. -/

/-- What a read of the wrapped repository returns is the row for its id and version. -/
theorem ReadOp.exec_ok {op : ReadOp} {t : Table} {key : Key} (h : op.exec t = .ok key) :
    0 ≤ op.version ∧ (t.requested op.id op.version).map Row.scan = some key ∧ key.id = op.id := by
  have hrow : 0 ≤ op.version ∧ (t.requested op.id op.version).map Row.scan = some key := by
    cases op with
    | getKey id =>
      refine ⟨le_refl 0, ?_⟩
      simp only [ReadOp.exec, PSQLAdapter.getKey_eq] at h
      cases hscan : (t.requested id 0).map Row.scan with
      | none => rw [hscan] at h; cases h
      | some k => rw [hscan] at h; cases h; exact hscan
    | getKeyByVersion id v =>
      by_cases hv : 0 < v
      · refine ⟨hv.le, ?_⟩
        simp only [ReadOp.exec, PSQLAdapter.getKeyByVersion_eq _ _ hv] at h
        cases hscan : (t.requested id v).map Row.scan with
        | none => rw [hscan] at h; cases h
        | some k => rw [hscan] at h; cases h; exact hscan
      · simp only [ReadOp.exec, PSQLAdapter.getKeyByVersion, if_pos (not_lt.mp hv)] at h
        cases h
  obtain ⟨r, hr, rfl⟩ := Option.map_eq_some_iff.mp hrow.2
  exact ⟨hrow.1, hrow.2, (Table.mem_of_requested hr).2⟩

/-- An entry that is yet to be indexed is as new as can be. -/
theorem Coherent.origin_of_unindexed (h : Coherent uuid st) {cacheKey : String}
    {item : Cache.Item Key} (hitem : st.lookup cacheKey = some item) {x : Call} (hx : x ∈ st.calls)
    (hpending : x.unindexed uuid = some cacheKey) :
    st.origin cacheKey = st.version item.value.id := by
  obtain ⟨v, hkey, -⟩ := h.entries cacheKey item hitem
  have hok := h.calls x hx
  cases x with
  | write op phase => cases hpending
  | read op floor phase =>
    cases phase with
    | indexing key n =>
      obtain ⟨-, -, -, -, -, horigin⟩ := hok
      have hcacheKey : op.cacheKey uuid = cacheKey := Option.some.inj hpending
      have hid : op.id = item.value.id := (getCacheKey_injective (hcacheKey.trans hkey)).1
      rw [hcacheKey, hid] at horigin
      exact horigin (by simp [hitem])
    | lookup | reading | storing key n | returned answer => cases hpending

theorem coherent_new (uuid : UUIDPkg) (table : Table) (clock : Time) :
    Coherent uuid (.new table clock) where
  entries _ _ hitem := by cases hitem
  indexed _ _ hitem := by cases hitem
  calls _ hc := by cases hc
  current _ := rfl
  settled_le _ := le_refl _
  latest _ := .inl rfl
  evicted _ hentry := by cases hentry

/-- **The step lemma**, for steps in which no write commits in the gap of a reader. -/
theorem Step.coherent (hstep : Step uuid NoneStoring st st') (h : Coherent uuid st) :
    Coherent uuid st' := by
  cases hstep with
  | wait hnow => exact h.setLock (.inr rfl)
  | startRead op => exact h.addCall ⟨le_refl _, trivial⟩
  | startWrite op => exact h.addCall trivial
  | @hit i floor op key hcall hlock hget =>
    refine h.setCall hcall rfl rfl ?_
    obtain ⟨item, hitem, -, rfl⟩ := Cache.get_eq_some.mp hget
    obtain ⟨hfloor, -⟩ := h.calls _ (List.mem_of_getElem? hcall)
    obtain ⟨v, hkey, hread, hsettled, hle⟩ := h.entries _ item hitem
    obtain ⟨hid, hv⟩ := getCacheKey_injective hkey
    rw [← hid, ← hv] at hread
    rw [← hid] at hsettled hle
    exact ⟨hfloor, _, hfloor.trans hsettled, hle, hread⟩
  | miss hcall hlock hget =>
    obtain ⟨hfloor, -⟩ := h.calls _ (List.mem_of_getElem? hcall)
    exact h.setCall hcall rfl rfl ⟨hfloor, trivial⟩
  | readError e hcall =>
    obtain ⟨hfloor, -⟩ := h.calls _ (List.mem_of_getElem? hcall)
    exact h.setCall hcall rfl rfl ⟨hfloor, trivial⟩
  | read hcall hread =>
    obtain ⟨hfloor, -⟩ := h.calls _ (List.mem_of_getElem? hcall)
    obtain ⟨hv, hrow, hid⟩ := ReadOp.exec_ok hread
    refine h.setCall hcall rfl rfl ⟨hfloor, rfl, hid, hv, ?_⟩
    rw [Table.requested_congr (h.current _)]
    exact hrow
  | set hcall hlock => exact h.set hcall hlock
  | index hcall => exact h.index hcall
  | writeError hcall => exact h.setCall hcall rfl rfl trivial
  | commit hcall hcond hwrite =>
    exact h.commit hcall hcond fun id hid => versionsOf_of_exec hwrite hid
  | @snapshot i n op keysToDel hcall hkeys =>
    have hn : n ≤ st.version op.id := h.calls _ (List.mem_of_getElem? hcall)
    refine h.setCall hcall rfl rfl ⟨hn, ?_⟩
    intro cacheKey item hitem hid hlt
    rcases h.indexed cacheKey item hitem with hmem | ⟨x, hx, hpending⟩
    · rw [hid] at hmem
      exact hkeys.mem_iff.mpr hmem
    · rw [h.origin_of_unindexed hitem hx hpending, hid] at hlt
      omega
  | deleteNone hcall hlock hlookup =>
    obtain ⟨hn, hcover⟩ := h.calls _ (List.mem_of_getElem? hcall)
    refine h.setCall hcall rfl rfl ⟨hn, ?_⟩
    intro cacheKey item hitem hid hlt
    rcases List.mem_cons.mp (hcover cacheKey item hitem hid hlt) with rfl | hmem
    · rw [hlookup] at hitem
      cases hitem
    · exact hmem
  | delete hcall hlock hlookup =>
    obtain ⟨hn, hcover⟩ := h.calls _ (List.mem_of_getElem? hcall)
    refine (h.remove rfl).setCall hcall rfl rfl ⟨hn, ?_⟩
    intro cacheKey item hitem hid hlt
    obtain ⟨hne, hold⟩ := lookup_remove hitem
    rcases List.mem_cons.mp (hcover cacheKey item hold hid hlt) with rfl | hmem
    · exact absurd rfl hne
    · exact hmem
  | callback hlock => exact h.unindex (by rw [hlock]; rfl) rfl
  | finish hcall hlock => exact h.finish hcall
  | sweep hlock htodo => exact h.setLock (.inl rfl)
  | sweepDelete hlock hlookup => exact h.remove rfl
  | sweepCallback hlock => exact h.unindex (by rw [hlock]; rfl) rfl
  | sweepEnd hlock => exact h.setLock (.inl rfl)

theorem Runs.coherent {table : Table} {clock : Time}
    (h : Runs uuid NoneStoring (.new table clock) st) : Coherent uuid st := by
  induction h with
  | refl => exact coherent_new uuid table clock
  | tail _ hstep ih => exact hstep.coherent ih

/-- Where no call of an id is under way, its last write has returned. -/
theorem Coherent.settled_eq (h : Coherent uuid st) {id : KeyID}
    (hquiet : ∀ c ∈ st.calls, c.id = id → c.isReturned = true) : st.settled id = st.version id := by
  rcases h.latest id with heq | ⟨c, hc, hunder⟩
  · exact heq
  · cases c with
    | read op floor phase => cases hunder
    | write op phase =>
      cases phase with
      | committed n | deleting n keysToDel =>
        have hid : op.id = id := (Prod.mk.inj (Option.some.inj hunder)).1
        cases hquiet _ hc hid
      | writing | failed | returned n => cases hunder

theorem Coherent.entry_current (h : Coherent uuid st) {id : KeyID}
    (hquiet : ∀ c ∈ st.calls, c.id = id → c.isReturned = true) {cacheKey : String}
    {item : Cache.Item Key} (hitem : st.lookup cacheKey = some item) (hid : item.value.id = id) :
    ∃ v, cacheKey = getCacheKey uuid id v ∧
      (st.table.requested id v).map Row.scan = some item.value := by
  subst hid
  obtain ⟨v, hkey, ⟨-, hrow⟩, hsettled, hle⟩ := h.entries cacheKey item hitem
  have hnow : st.origin cacheKey = st.version item.value.id := by
    rw [h.settled_eq hquiet] at hsettled
    omega
  refine ⟨v, hkey, ?_⟩
  rw [hnow, Table.requested_congr (h.current _)] at hrow
  exact hrow

/-- The last write that had returned when a call started only ever gets later. -/
theorem Step.settled {cond : State → KeyID → Prop} (hstep : Step uuid cond st st') (id : KeyID) :
    st.settled id ≤ st'.settled id := by
  cases hstep with
  | @finish i n op hcall hlock =>
    show st.settled id ≤ Function.update st.settled op.id (max (st.settled op.id) n) id
    by_cases hid : id = op.id
    · subst hid
      rw [Function.update_self]
      omega
    · rw [Function.update_of_ne hid]
  | _ => exact le_refl _

/-- How a read started. -/
def Call.start : Call → Option (ReadOp × Nat)
  | read op floor _ => some (op, floor)
  | write _ _ => none

theorem map_start_set {calls : List Call} {i : Nat} {c c' : Call} (hcall : calls[i]? = some c)
    (hstart : c'.start = c.start) : (calls.set i c').map Call.start = calls.map Call.start := by
  obtain ⟨hlt, hget⟩ := List.getElem?_eq_some_iff.mp hcall
  rw [List.map_set, hstart, ← List.map_set, ← hget, List.set_getElem_self]

/-- A step leaves the starts of the calls alone, or adds one. -/
theorem Step.starts {cond : State → KeyID → Prop} (hstep : Step uuid cond st st') :
    ∃ new, st'.calls.map Call.start = st.calls.map Call.start ++ new ∧
      ∀ op floor, some (op, floor) ∈ new → floor = st.settled op.id := by
  have hsame : st'.calls.map Call.start = st.calls.map Call.start →
      ∃ new, st'.calls.map Call.start = st.calls.map Call.start ++ new ∧
        ∀ op floor, some (op, floor) ∈ new → floor = st.settled op.id := by
    intro heq
    exact ⟨[], by simp [heq], by simp⟩
  cases hstep with
  | startRead op =>
    refine ⟨[some (op, st.settled op.id)], by simp [Call.start], ?_⟩
    intro op' floor hmem
    obtain ⟨rfl, rfl⟩ := Prod.mk.inj (Option.some.inj (List.mem_singleton.mp hmem))
    rfl
  | startWrite op =>
    refine ⟨[none], by simp [Call.start], ?_⟩
    intro op' floor hmem
    cases List.mem_singleton.mp hmem
  | hit hcall | miss hcall | readError _ hcall | read hcall | set hcall | index hcall
  | writeError hcall | commit hcall | snapshot hcall | deleteNone hcall | delete hcall
  | finish hcall => exact hsame (map_start_set hcall rfl)
  | wait | callback | sweep | sweepDelete | sweepCallback | sweepEnd => exact hsame rfl

theorem Runs.starts {cond : State → KeyID → Prop} (h : Runs uuid cond st st') :
    (∀ id, st.settled id ≤ st'.settled id) ∧
    ∃ new, st'.calls.map Call.start = st.calls.map Call.start ++ new ∧
      ∀ op floor, some (op, floor) ∈ new → st.settled op.id ≤ floor := by
  induction h with
  | refl => exact ⟨fun _ => le_refl _, [], by simp, by simp⟩
  | tail _ hstep ih =>
    obtain ⟨hsettled, new, hcalls, hfloor⟩ := ih
    obtain ⟨new', hcalls', hfloor'⟩ := hstep.starts
    refine ⟨fun id => (hsettled id).trans (hstep.settled id), new ++ new', ?_, ?_⟩
    · rw [hcalls', hcalls, List.append_assoc]
    · intro op floor hmem
      rcases List.mem_append.mp hmem with hmem | hmem
      · exact hfloor op floor hmem
      · rw [hfloor' op floor hmem]
        exact hsettled op.id

/-- A read that starts later has a later floor. -/
theorem Runs.floor {cond : State → KeyID → Prop} (h : Runs uuid cond st st') {j floor : Nat}
    {op : ReadOp} {phase : ReadPhase} (hj : st.calls.length ≤ j)
    (hcall : st'.calls[j]? = some (.read op floor phase)) : st.settled op.id ≤ floor := by
  obtain ⟨-, new, hcalls, hfloor⟩ := h.starts
  have hstart : (st'.calls.map Call.start)[j]? = some (some (op, floor)) := by
    rw [List.getElem?_map, hcall]
    rfl
  rw [hcalls, List.getElem?_append_right (by simpa using hj)] at hstart
  exact hfloor op floor (List.mem_of_getElem? hstart)

/-- **No stale refill, if no write commits in the gap of a reader.**  In a run in which a write of
an id commits only when no read of that id is between its read of the wrapped repository and the end
of `storeInCache`:

* where no call of an id is under way, each entry of the id that has not expired is what the wrapped
  repository would return for the id and the version;
* a `GetKey` that starts after a `RevokeKey` of its id has returned yields what the wrapped
  repository held for the id after the revocation, or after a later write. -/
theorem no_stale_refill (uuid : UUIDPkg) {table : Table} {clock : Time} {st : State}
    (h : Runs uuid NoneStoring (.new table clock) st) :
    (∀ id, (∀ c ∈ st.calls, c.id = id → c.isReturned = true) →
      ∀ cacheKey item, st.lookup cacheKey = some item → item.value.id = id →
        item.expired st.clock = false →
        ∃ v, cacheKey = getCacheKey uuid id v ∧
          (st.table.requested id v).map Row.scan = some item.value) ∧
    ∀ id n, .write (.revokeKey id) (.returned n) ∈ st.calls →
      ∀ st', Runs uuid NoneStoring st st' → ∀ j floor key, st.calls.length ≤ j →
        st'.calls[j]? = some (.read (.getKey id) floor (.returned (.ok key))) →
        ∃ m, n ≤ m ∧ m ≤ st'.version id ∧ ReadAt st' id 0 m key := by
  have hcoherent := h.coherent
  constructor
  · intro id hquiet cacheKey item hitem hid _
    exact hcoherent.entry_current hquiet hitem hid
  · intro id n hrevoked st' hrun j floor key hj hcall
    have hn : n ≤ st.settled id := hcoherent.calls _ hrevoked
    have hfloor : st.settled id ≤ floor := hrun.floor hj hcall
    have hcoherent' : Coherent uuid st' := Runs.coherent (h.trans hrun)
    obtain ⟨-, m, hle, hm, hread⟩ := hcoherent'.calls _ (List.mem_of_getElem? hcall)
    exact ⟨m, (hn.trans hfloor).trans hle, hm, hread⟩

end Invariant

/-! ## 6. A call alone

With nobody else around, a call does what `CachedRepository.lean` says of it. -/

section Alone

variable {uuid : UUIDPkg} {cond : State → KeyID → Prop} {st : State}

/-- The store that the sequential model speaks of. -/
def State.toStore (st : State) : CachedStore := ⟨st.repo, st.table, st.clock⟩

theorem set_last (calls : List Call) (c c' : Call) :
    (calls ++ [c]).set calls.length c' = calls ++ [c'] := by simp

theorem getElem?_last (calls : List Call) (c : Call) : (calls ++ [c])[calls.length]? = some c := by
  simp

/-- **A read alone** is `fetch`. -/
theorem read_alone (hlock : st.lock = .free) (op : ReadOp) :
    ∃ st' answer, Runs uuid cond st st' ∧
      st'.calls = st.calls ++ [.read op (st.settled op.id) (.returned answer)] ∧
      (answer, st'.toStore) =
        st.toStore.fetch uuid st.clock st.clock (op.cacheKey uuid) (op.exec st.table) := by
  have hstart : Runs uuid cond st
      { st with calls := st.calls ++ [.read op (st.settled op.id) .lookup] } :=
    .single (.startRead op)
  cases hget : st.repo.cache.get st.clock (op.cacheKey uuid) with
  | some key =>
    refine ⟨_, .ok key, hstart.tail (.hit (getElem?_last _ _) hlock hget), set_last _ _ _, ?_⟩
    simp [State.toStore, CachedStore.fetch, State.setCall, hget]
  | none =>
    have hmiss := hstart.tail (.miss (getElem?_last _ _) hlock hget)
    simp only [State.setCall, set_last] at hmiss
    cases hexec : op.exec st.table with
    | error e =>
      refine ⟨_, .error e, hmiss.tail (.readError e (getElem?_last _ _)), set_last _ _ _, ?_⟩
      simp [State.toStore, CachedStore.fetch, State.setCall, hget]
    | ok key =>
      have hread := hmiss.tail (.read (getElem?_last _ _) hexec)
      simp only [State.setCall, set_last] at hread
      have hstore := hread.tail (.set (getElem?_last _ _) hlock)
      simp only [State.setCall, State.store, set_last] at hstore
      refine ⟨_, .ok key, hstore.tail (.index (getElem?_last _ _)), set_last _ _ _, ?_⟩
      simp [State.toStore, CachedStore.fetch, State.setCall, State.index, storeInCache, hget]

/-- The deletions of an invalidation, one after the other. -/
theorem deletes_alone {n : Nat} {op : WriteOp} (keysToDel : List String) {before : List Call}
    (hcalls : st.calls = before ++ [.write op (.deleting n keysToDel)]) (hlock : st.lock = .free) :
    Runs uuid cond st { st with
      repo := st.repo.deleteAll uuid keysToDel
      calls := before ++ [.write op (.deleting n [])] } := by
  induction keysToDel generalizing st with
  | nil =>
    rw [← hcalls]
    exact .refl
  | cons cacheKey rest ih =>
    have hcall : st.calls[before.length]? = some (.write op (.deleting n (cacheKey :: rest))) := by
      rw [hcalls]
      exact getElem?_last _ _
    have hset : ∀ c', st.calls.set before.length c' = before ++ [c'] := by
      intro c'
      rw [hcalls]
      exact set_last _ _ _
    have hdelete : st.repo.deleteAll uuid (cacheKey :: rest) =
        (st.repo.evict uuid (st.repo.cache.delete cacheKey)).deleteAll uuid rest := rfl
    cases hlookup : st.lookup cacheKey with
    | none =>
      have hnone : st.repo.cache.items.lookup cacheKey = none := hlookup
      have hevict : st.repo.evict uuid (st.repo.cache.delete cacheKey) = st.repo := by
        simp [CachedRepository.evict, Cache.delete, hnone]
      have hstep : Step uuid cond st (st.setCall before.length (.write op (.deleting n rest))) :=
        .deleteNone hcall hlock hlookup
      rw [hdelete, hevict]
      exact .head hstep (ih (hset _) hlock)
    | some item =>
      have hsome : st.repo.cache.items.lookup cacheKey = some item := hlookup
      have hevict : st.repo.evict uuid (st.repo.cache.delete cacheKey) =
          ⟨(st.repo.cache.delete cacheKey).1,
            onCacheEvict uuid st.repo.cacheIndex (cacheKey, item.value)⟩ := by
        simp [CachedRepository.evict, Cache.delete, hsome]
      have hstep : Step uuid cond st
          ((st.remove cacheKey (.delete before.length (cacheKey, item.value))).setCall before.length
            (.write op (.deleting n rest))) :=
        .delete hcall hlock hlookup
      rw [hdelete, hevict]
      refine .head hstep (.head (.callback rfl) ?_)
      have hcalls' : (((st.remove cacheKey
          (.delete before.length (cacheKey, item.value))).setCall before.length
            (.write op (.deleting n rest))).unindex uuid (cacheKey, item.value) .free).calls =
          before ++ [.write op (.deleting n rest)] := hset _
      have hrest := ih hcalls' rfl
      rw [← hlock] at hrest ⊢
      exact hrest

theorem invalidated_repo (op : WriteOp) : CachedStore.invalidated op.repo = [op.id] := by
  cases op <;> rfl

/-- **A write alone** is `passThrough`. -/
theorem write_alone (hlock : st.lock = .free) (op : WriteOp)
    (hcond : cond { st with calls := st.calls ++ [.write op .writing] } op.id) :
    ∃ st' answer phase, Runs uuid cond st st' ∧ st'.calls = st.calls ++ [.write op phase] ∧
      (Call.write op phase).isReturned = true ∧ (answer.isOk = true → ∃ n, phase = .returned n) ∧
      st'.lock = .free ∧
      (answer, st'.toStore) = st.toStore.passThrough uuid st.clock st.clock op.repo := by
  have hstart : Runs uuid cond st { st with calls := st.calls ++ [.write op .writing] } :=
    .single (.startWrite op)
  cases hexec : PSQLAdapter.exec uuid st.clock op.repo st.table with
  | mk r t' =>
    cases r with
    | error e =>
      refine ⟨_, .error e, .failed, hstart.tail (.writeError (getElem?_last _ _)),
        set_last _ _ _, rfl, (fun hok => by cases hok), hlock, ?_⟩
      simp [State.toStore, CachedStore.passThrough, State.setCall, hexec,
        PSQLAdapter.exec_error hexec, Except.isOk, Except.toBool]
    | ok a =>
      have hcommit := hstart.tail (.commit (getElem?_last _ _) hcond hexec)
      simp only [State.setCall, State.commit, set_last] at hcommit
      have hsnapshot := hcommit.tail (.snapshot (getElem?_last _ _) (List.Perm.refl _))
      simp only [State.setCall, set_last] at hsnapshot
      have hdeletes := hsnapshot.trans (deletes_alone _ rfl hlock)
      refine ⟨_, .ok a, .returned _, hdeletes.tail (.finish (getElem?_last _ _) ?_),
        set_last _ _ _, rfl, fun _ => ⟨_, rfl⟩, hlock, ?_⟩
      · intro entry
        simp [hlock]
      · simp [State.toStore, CachedStore.passThrough, State.setCall, State.settle, hexec,
          invalidated_repo, invalidateCache, Except.isOk, Except.toBool]

end Alone

/-! ### A revocation in the gap of a reader -/

/-- A table with one active key. -/
def activeTable : Table := CachedStore.cachedTable (some .zero)

def activeID : KeyID := CachedStore.cachedID

def activeKey : Key := ⟨activeID, 1, some .zero, [1], .active, 0, 0, none⟩

def revokedTable : Table := (PSQLAdapter.exec googleUUID 0 (.revokeKey activeID) activeTable).2

/-- A reader has its row and has not stored it. -/
def gap : State :=
  { State.new activeTable 0 with calls := [.read (.getKey activeID) 0 (.storing activeKey 0)] }

theorem gap_run (cond : State → KeyID → Prop) : Runs googleUUID cond (.new activeTable 0) gap := by
  have hstart : Runs googleUUID cond (.new activeTable 0)
      { State.new activeTable 0 with calls := [.read (.getKey activeID) 0 .lookup] } :=
    .single (.startRead (.getKey activeID))
  have hmiss : Runs googleUUID cond (.new activeTable 0)
      { State.new activeTable 0 with calls := [.read (.getKey activeID) 0 .reading] } :=
    hstart.tail (.miss (i := 0) rfl rfl rfl)
  exact hmiss.tail (.read (i := 0) rfl (by decide))

/-- The reader has stored its row and returned. -/
def cachedState : State :=
  { ((State.new activeTable 0).store 0 ((ReadOp.getKey activeID).cacheKey googleUUID) activeKey
      0).index googleUUID ((ReadOp.getKey activeID).cacheKey googleUUID) activeKey with
    calls := [.read (.getKey activeID) 0 (.returned (.ok activeKey))] }

theorem cachedState_run (cond : State → KeyID → Prop) :
    Runs googleUUID cond (.new activeTable 0) cachedState := by
  have hset : Runs googleUUID cond (.new activeTable 0)
      { (State.new activeTable 0).store 0 ((ReadOp.getKey activeID).cacheKey googleUUID) activeKey 0
        with calls := [.read (.getKey activeID) 0 (.indexing activeKey 0)] } :=
    (gap_run cond).tail (@Step.set _ _ _ 0 0 0 (.getKey activeID) activeKey rfl rfl)
  exact hset.tail (@Step.index _ _ _ 0 0 0 (.getKey activeID) activeKey rfl)

/-- What is stored once the key has been revoked. -/
def revokedStore : CachedStore :=
  (cachedState.toStore.passThrough googleUUID 0 0 (.revokeKey activeID)).2

/-- The row has been cached, the key is revoked, and a reader that comes after that gets the revoked
key: the entry has been deleted. -/
theorem no_stale_refill_revoked :
    ∃ st st' n m key, Runs googleUUID NoneStoring (.new activeTable 0) st ∧
      cachedState.lookup (getCacheKey googleUUID activeID 0) ≠ none ∧
      .write (.revokeKey activeID) (.returned n) ∈ st.calls ∧ Runs googleUUID NoneStoring st st' ∧
      st'.calls[st.calls.length]? =
        some (.read (.getKey activeID) (st.settled activeID) (.returned (.ok key))) ∧
      key.status = .revoked ∧ n ≤ m ∧ m ≤ st'.version activeID ∧ ReadAt st' activeID 0 m key := by
  have hcond : NoneStoring { cachedState with
      calls := cachedState.calls ++ [.write (.revokeKey activeID) .writing] } activeID := by
    intro c hc _
    rcases List.mem_pair.mp hc with rfl | rfl <;> rfl
  obtain ⟨st, answer, phase, hwrite, hcalls, -, hphase, hlock, hpass⟩ :=
    @write_alone googleUUID NoneStoring cachedState rfl (.revokeKey activeID) hcond
  obtain ⟨rfl, hstore⟩ := Prod.mk.inj hpass
  obtain ⟨n, rfl⟩ := hphase (by decide +kernel)
  have hrun := (cachedState_run NoneStoring).trans hwrite
  have hrevoked : .write (.revokeKey activeID) (.returned n) ∈ st.calls := by
    rw [hcalls]
    exact List.mem_append_right _ List.mem_cons_self
  obtain ⟨st', read, hread, hcalls', hfetch⟩ :=
    @read_alone googleUUID NoneStoring st hlock (.getKey activeID)
  have hclock : st.clock = revokedStore.clock := congrArg CachedStore.clock hstore
  have htable : st.table = revokedStore.table := congrArg CachedStore.table hstore
  have hstored : st.toStore = revokedStore := hstore
  rw [hstored, hclock, htable] at hfetch
  have hlast : st'.calls[st.calls.length]? =
      some (.read (.getKey activeID) (st.settled activeID) (.returned read)) := by
    rw [hcalls']
    exact getElem?_last _ _
  have hstatus : (read.toOption.map (·.status)) = some .revoked := by
    rw [(Prod.mk.inj hfetch).1]
    decide +kernel
  cases read with
  | error e => cases hstatus
  | ok key =>
    obtain ⟨m, hn, hm, hat⟩ := (no_stale_refill googleUUID hrun).2 activeID n hrevoked st' hread
      _ _ key le_rfl hlast
    exact ⟨st, st', n, m, key, hrun, by decide +kernel, hrevoked, hread, hlast,
      Option.some.inj hstatus, hn, hm, hat⟩

/-- The shared state once the key has been revoked and the revocation has returned. -/
def revokedState : State := (State.settle ((State.new activeTable 0).commit activeID revokedTable)
  activeID 1)

/-- The revocation has found nothing to delete. -/
theorem revokedGap_run : Runs googleUUID (fun _ _ => True) gap
    { revokedState with
      calls := [.read (.getKey activeID) 0 (.storing activeKey 0),
        .write (.revokeKey activeID) (.returned 1)] } := by
  have hstart : Runs googleUUID (fun _ _ => True) gap
      { State.new activeTable 0 with
        calls := [.read (.getKey activeID) 0 (.storing activeKey 0),
          .write (.revokeKey activeID) .writing] } :=
    .single (.startWrite (.revokeKey activeID))
  have hcommit : Runs googleUUID (fun _ _ => True) gap
      { (State.new activeTable 0).commit activeID revokedTable with
        calls := [.read (.getKey activeID) 0 (.storing activeKey 0),
          .write (.revokeKey activeID) (.committed 1)] } :=
    hstart.tail (@Step.commit _ _ _ 1 (.revokeKey activeID) () revokedTable rfl trivial rfl)
  have hsnapshot : Runs googleUUID (fun _ _ => True) gap
      { (State.new activeTable 0).commit activeID revokedTable with
        calls := [.read (.getKey activeID) 0 (.storing activeKey 0),
          .write (.revokeKey activeID) (.deleting 1 [])] } :=
    hcommit.tail (@Step.snapshot _ _ _ 1 1 (.revokeKey activeID) [] rfl (List.Perm.refl _))
  exact hsnapshot.tail (@Step.finish _ _ _ 1 1 (.revokeKey activeID) rfl (by simp [State.commit,
    State.new]))

/-- The shared state once the reader has stored its row after all. -/
def refilledState : State :=
  (revokedState.store 0 ((ReadOp.getKey activeID).cacheKey googleUUID) activeKey 0).index googleUUID
    ((ReadOp.getKey activeID).cacheKey googleUUID) activeKey

theorem refilled_run : Runs googleUUID (fun _ _ => True)
    { revokedState with
      calls := [.read (.getKey activeID) 0 (.storing activeKey 0),
        .write (.revokeKey activeID) (.returned 1)] }
    { refilledState with
      calls := [.read (.getKey activeID) 0 (.returned (.ok activeKey)),
        .write (.revokeKey activeID) (.returned 1)] } := by
  have hset : Runs googleUUID (fun _ _ => True)
      { revokedState with
        calls := [.read (.getKey activeID) 0 (.storing activeKey 0),
          .write (.revokeKey activeID) (.returned 1)] }
      { revokedState.store 0 ((ReadOp.getKey activeID).cacheKey googleUUID) activeKey 0 with
        calls := [.read (.getKey activeID) 0 (.indexing activeKey 0),
          .write (.revokeKey activeID) (.returned 1)] } :=
    .single (@Step.set _ _ _ 0 0 0 (.getKey activeID) activeKey rfl rfl)
  exact hset.tail (@Step.index _ _ _ 0 0 0 (.getKey activeID) activeKey rfl)

/-- **A stale refill.**  `GetKey` reads the active row; `RevokeKey` commits, finds nothing to
invalidate and returns; `GetKey` stores the row.  With no call under way the cache holds the active
key, and a `GetKey` that starts then yields it, while the wrapped repository holds a revoked one. -/
theorem stale_refill :
    ∃ st st', Runs googleUUID (fun _ _ => True) (.new activeTable 0) st ∧
      (∀ c ∈ st.calls, c.isReturned = true) ∧
      (∃ item, st.lookup (getCacheKey googleUUID activeID 0) = some item ∧
        item.expired st.clock = false ∧ item.value.status = .active) ∧
      ((st.table.requested activeID 0).map (·.status) = some .revoked) ∧
      .write (.revokeKey activeID) (.returned 1) ∈ st.calls ∧
      Runs googleUUID (fun _ _ => True) st st' ∧
      ∃ floor, st'.calls[st.calls.length]? =
        some (.read (.getKey activeID) floor (.returned (.ok activeKey))) := by
  refine ⟨{ refilledState with
      calls := [.read (.getKey activeID) 0 (.returned (.ok activeKey)),
        .write (.revokeKey activeID) (.returned 1)] },
    { refilledState with
      calls := [.read (.getKey activeID) 0 (.returned (.ok activeKey)),
        .write (.revokeKey activeID) (.returned 1),
        .read (.getKey activeID) 1 (.returned (.ok activeKey))] },
    ((gap_run _).trans revokedGap_run).trans refilled_run, by simp [Call.isReturned],
    ?_, ?_, by simp,
    ?_, 1, rfl⟩
  · exact ⟨⟨activeKey, defaultCacheTTL, false⟩, by decide +kernel, by decide, rfl⟩
  · decide +kernel
  · have hstart : Runs googleUUID (fun _ _ => True)
        { refilledState with
          calls := [.read (.getKey activeID) 0 (.returned (.ok activeKey)),
            .write (.revokeKey activeID) (.returned 1)] }
        { refilledState with
          calls := [.read (.getKey activeID) 0 (.returned (.ok activeKey)),
            .write (.revokeKey activeID) (.returned 1), .read (.getKey activeID) 1 .lookup] } :=
      .single (.startRead (.getKey activeID))
    exact hstart.tail (@Step.hit _ _ _ 2 1 (.getKey activeID) activeKey rfl rfl (by decide +kernel))

end CachedConcurrent

end Polykey
