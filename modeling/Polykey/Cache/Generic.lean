/-
# The generic TTL cache

`pkg/cache`: a map from keys to items, each with an expiry time or marked permanent.  Three
caches of the program are instances of it: the key cache of the repository, the policy cache of
the authorizer and the list of revoked tokens.

Every operation reads the clock at most once, inside the lock, so each of them is a function of
the cache and of the time it reads.  An expired item is invisible to `get` but stays in the map
until `deleteExpired` runs; the operations that remove items also return what they removed, in
the order the eviction callback sees it.
-/
import Mathlib.Data.List.AList
import Polykey.Domain.Types

namespace Polykey

/-! ## 1. Items and the cache -/

namespace Cache

/-- `item[V]`. -/
structure Item (V : Type) where
  value : V
  expiresAt : Time
  permanent : Bool
  deriving DecidableEq

/-- `!permanent && now.After(expiresAt)`. -/
def Item.expired {V : Type} (i : Item V) (now : Time) : Bool := !i.permanent && i.expiresAt < now

end Cache

/-- `Cache[K, V]`. -/
structure Cache (K V : Type) where
  items : AList (fun _ : K => Cache.Item V)
  defaultTTL : Duration

namespace Cache

variable {K V : Type} [DecidableEq K]

/-- `New` with `WithDefaultTTL`. -/
def new (K V : Type) (defaultTTL : Duration) : Cache K V := ⟨∅, defaultTTL⟩

/-- The item that `Set` stores: a ttl of -1 is permanent, 0 stands for the default. -/
def makeItem (c : Cache K V) (now : Time) (value : V) (ttl : Duration) : Item V :=
  if ttl = -1 then ⟨value, 0, true⟩
  else if ttl = 0 then ⟨value, now + c.defaultTTL, false⟩
  else ⟨value, now + ttl, false⟩

/-- `Cache.Set`. -/
def set (c : Cache K V) (now : Time) (key : K) (value : V) (ttl : Duration) : Cache K V :=
  { c with items := c.items.insert key (c.makeItem now value ttl) }

/-- `Cache.Get`. -/
def get (c : Cache K V) (now : Time) (key : K) : Option V :=
  match c.items.lookup key with
  | none => none
  | some i => if i.expired now then none else some i.value

/-- `Cache.Delete`, with the pair it hands to the eviction callback. -/
def delete (c : Cache K V) (key : K) : Cache K V × List (K × V) :=
  match c.items.lookup key with
  | none => (c, [])
  | some i => ({ c with items := c.items.erase key }, [(key, i.value)])

/-- `Cache.deleteExpired`: one pass of the cleanup loop. -/
def deleteExpired (c : Cache K V) (now : Time) : Cache K V × List (K × V) :=
  ({ c with items :=
      ⟨c.items.entries.filter fun e => !e.2.expired now,
        c.items.nodupKeys.sublist List.filter_sublist⟩ },
    (c.items.entries.filter fun e => e.2.expired now).map fun e => (e.1, e.2.value))

/-- `Cache.Clear`.  The eviction callback is not called. -/
def clear (c : Cache K V) : Cache K V := { c with items := ∅ }

/-! ## 2. What `get` sees after each operation -/

theorem Item.expired_mono {i : Item V} {t t' : Time} (h : i.expired t = true) (hle : t ≤ t') :
    i.expired t' = true := by
  simp only [Item.expired, Bool.and_eq_true, decide_eq_true_eq] at h ⊢
  exact ⟨h.1, lt_of_lt_of_le h.2 hle⟩

/-- What has not expired had not expired earlier. -/
theorem Item.live_of_later {i : Item V} {t t' : Time} (hle : t ≤ t') (h : i.expired t' = false) :
    i.expired t = false := by
  by_contra hexp
  have hexp' := Item.expired_mono (by simpa using hexp) hle
  rw [h] at hexp'
  cases hexp'

theorem Item.live_of_le {i : Item V} {t : Time} (h : t ≤ i.expiresAt) : i.expired t = false := by
  simp [Item.expired, not_lt_of_ge h]

theorem get_eq_some {c : Cache K V} {now : Time} {key : K} {v : V} :
    c.get now key = some v ↔
      ∃ i, c.items.lookup key = some i ∧ i.expired now = false ∧ i.value = v := by
  unfold get
  cases h : c.items.lookup key with
  | none => simp
  | some i => cases he : i.expired now <;> simp [he]

@[simp] theorem lookup_set_self (c : Cache K V) (now : Time) (key : K) (v : V) (ttl : Duration) :
    (c.set now key v ttl).items.lookup key = some (c.makeItem now v ttl) :=
  AList.lookup_insert _

theorem lookup_set_ne (c : Cache K V) (now : Time) {key key' : K} (v : V) (ttl : Duration)
    (h : key' ≠ key) : (c.set now key v ttl).items.lookup key' = c.items.lookup key' :=
  AList.lookup_insert_ne h

omit [DecidableEq K] in
theorem makeItem_value (c : Cache K V) (now : Time) (v : V) (ttl : Duration) :
    (c.makeItem now v ttl).value = v := by
  unfold makeItem
  split
  · rfl
  · split <;> rfl

theorem lookup_delete_self (c : Cache K V) (key : K) :
    (c.delete key).1.items.lookup key = none := by
  unfold delete
  split
  · assumption
  · exact AList.lookup_erase _ _

theorem lookup_delete_ne (c : Cache K V) {key key' : K} (h : key' ≠ key) :
    (c.delete key).1.items.lookup key' = c.items.lookup key' := by
  unfold delete
  split
  · rfl
  · exact AList.lookup_erase_ne h

/-- A cleanup pass removes the expired items and no others. -/
theorem lookup_deleteExpired (c : Cache K V) (now : Time) (key : K) (i : Item V) :
    (c.deleteExpired now).1.items.lookup key = some i ↔
      c.items.lookup key = some i ∧ i.expired now = false := by
  have hmem : ∀ (s : AList fun _ : K => Item V),
      s.lookup key = some i ↔ (⟨key, i⟩ : Sigma fun _ : K => Item V) ∈ s.entries :=
    fun s => AList.mem_lookup_iff
  rw [hmem, hmem]
  simp [deleteExpired]

end Cache

end Polykey
