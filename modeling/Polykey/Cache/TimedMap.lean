/-
# The TTL cache as a timed map

What a user of `pkg/cache` relies on is a map whose entries have a deadline: `Get` finds what the
last `Set` of the key stored, unless the key was deleted, the cache cleared, or the deadline is
over.  What the cache has is a map in which entries that are over stay until a cleanup pass comes
by, may be overwritten while they are over, and are removed by three operations of which two call
the eviction callback.

A run is a list of calls with what came of each, the NEWEST FIRST, so that "the last `Set`" is found
by reading from the head (`lastSet`).  `held` is the same with the cleanup passes taken into
account, and is exactly what the map holds (`Run.holds`).  The two differ in entries whose deadline
is over, and those nobody sees: from there on the clock only goes forward (`held_filter_live`).
-/
import Mathlib.Data.List.Pairwise
import Polykey.Cache.Generic

namespace Polykey

namespace Cache

variable {K V : Type} [DecidableEq K]

/-! ## 1. The cleanup pass, entry by entry

`range` over a Go map may visit the entries in any order. The pass is modelled as the loop it is,
over any order of the keys, and shown to do what the one-step `deleteExpired` of the cache does. -/

/-- The body of the loop in `deleteExpired`, with what the callback has seen so far. -/
def sweepOne (now : Time) (acc : Cache K V × List (K × V)) (e : Sigma fun _ : K => Item V) :
    Cache K V × List (K × V) :=
  if e.2.expired now then ((acc.1.delete e.1).1, acc.2 ++ (acc.1.delete e.1).2) else acc

/-- `deleteExpired` as the loop it is, over the entries in the order in which `range` comes to them,
which may be any. -/
def sweep (c : Cache K V) (now : Time) (order : List (Sigma fun _ : K => Item V)) :
    Cache K V × List (K × V) :=
  order.foldl (sweepOne now) (c, [])

section Sweep

variable {c : Cache K V} {now : Time} {order : List (Sigma fun _ : K => Item V)}

theorem delete_of_lookup {key : K} {i : Item V} (h : c.items.lookup key = some i) :
    c.delete key = ({ c with items := c.items.erase key }, [(key, i.value)]) := by
  simp [delete, h]

@[simp] theorem defaultTTL_delete (c : Cache K V) (key : K) :
    (c.delete key).1.defaultTTL = c.defaultTTL := by
  unfold delete
  split <;> rfl

/-- What the rest of the loop does. -/
theorem foldl_sweepOne (now : Time) (seen : List (K × V)) (hnodup : (order.map Sigma.fst).Nodup)
    (horder : ∀ e ∈ order, c.items.lookup e.1 = some e.2) :
    (order.foldl (sweepOne now) (c, seen)).2 =
        seen ++ (order.filter fun e => e.2.expired now).map (fun e => (e.1, e.2.value)) ∧
      (order.foldl (sweepOne now) (c, seen)).1.defaultTTL = c.defaultTTL ∧
      ∀ key i, (order.foldl (sweepOne now) (c, seen)).1.items.lookup key = some i ↔
        c.items.lookup key = some i ∧ (⟨key, i⟩ ∈ order → i.expired now = false) := by
  induction order generalizing c seen with
  | nil => simp
  | cons e order ih =>
    obtain ⟨hfirst, hnodup⟩ := List.nodup_cons.mp hnodup
    have hlookup := horder e (by simp)
    have hrest : ∀ e' ∈ order, e'.1 ≠ e.1 := fun e' he' heq =>
      hfirst (heq ▸ List.mem_map_of_mem he')
    rw [List.foldl_cons]
    by_cases hexp : e.2.expired now = true
    · have hstep : sweepOne now (c, seen) e =
          ({ c with items := c.items.erase e.1 }, seen ++ [(e.1, e.2.value)]) := by
        simp [sweepOne, hexp, delete_of_lookup hlookup]
      rw [hstep]
      obtain ⟨hseen, httl, hleft⟩ := ih (c := { c with items := c.items.erase e.1 })
        (seen ++ [(e.1, e.2.value)]) hnodup fun e' he' => by
          rw [AList.lookup_erase_ne (hrest e' he')]
          exact horder e' (by simp [he'])
      refine ⟨by simp [hseen, hexp], httl, fun key i => ?_⟩
      rw [hleft]
      by_cases hkey : key = e.1
      · subst hkey
        simp only [AList.lookup_erase, hlookup, Option.some.injEq]
        constructor
        · rintro ⟨h, -⟩
          cases h
        · rintro ⟨rfl, h⟩
          rw [h (by simp)] at hexp
          cases hexp
      · rw [AList.lookup_erase_ne hkey]
        have hne : (⟨key, i⟩ : Sigma fun _ : K => Item V) ≠ e := fun h => hkey (h ▸ rfl)
        simp [hne]
    · have hstep : sweepOne now (c, seen) e = (c, seen) := by simp [sweepOne, hexp]
      rw [hstep]
      obtain ⟨hseen, httl, hleft⟩ := ih seen hnodup fun e' he' => horder e' (by simp [he'])
      refine ⟨by simp [hseen, hexp], httl, fun key i => ?_⟩
      rw [hleft]
      refine and_congr_right fun hi => ⟨fun h hmem => ?_, fun h hmem => h (by simp [hmem])⟩
      rcases List.mem_cons.mp hmem with heq | hmem
      · subst heq
        simpa using hexp
      · exact h hmem

/-- What a cleanup pass hands to the callback. -/
theorem mem_deleteExpired {key : K} {v : V} : (key, v) ∈ (c.deleteExpired now).2 ↔
    ∃ i, c.items.lookup key = some i ∧ i.expired now = true ∧ i.value = v := by
  simp only [deleteExpired, List.mem_map, List.mem_filter, Prod.mk.injEq]
  constructor
  · rintro ⟨⟨k, i⟩, ⟨hmem, hexp⟩, rfl, rfl⟩
    exact ⟨i, AList.mem_lookup_iff.mpr hmem, hexp, rfl⟩
  · rintro ⟨i, hi, hexp, rfl⟩
    exact ⟨⟨key, i⟩, ⟨AList.mem_lookup_iff.mp hi, hexp⟩, rfl, rfl⟩

omit [DecidableEq K] in
/-- No key comes twice. -/
theorem nodup_deleteExpired (c : Cache K V) (now : Time) :
    ((c.deleteExpired now).2.map Prod.fst).Nodup := by
  simp only [deleteExpired, List.map_map]
  exact List.Nodup.sublist (List.filter_sublist.map Sigma.fst) c.items.nodupKeys

theorem lookup_of_mem_order (h : order.Perm c.items.entries) :
    ∀ e ∈ order, c.items.lookup e.1 = some e.2 := by
  intro e he
  exact AList.mem_lookup_iff.mpr (h.mem_iff.mp he)

/-- **In whatever order the loop runs**, it removes the expired entries and hands each of them to
the callback once. -/
theorem sweep_spec (now : Time) (h : order.Perm c.items.entries) :
    (c.sweep now order).2.Perm (c.deleteExpired now).2 ∧
      (c.sweep now order).1.defaultTTL = c.defaultTTL ∧
      ∀ key, (c.sweep now order).1.items.lookup key =
        (c.items.lookup key).filter fun i => !i.expired now := by
  have hnodup : (order.map Sigma.fst).Nodup := (h.map Sigma.fst).nodup_iff.mpr c.items.nodupKeys
  have horder := lookup_of_mem_order h
  obtain ⟨hseen, httl, hleft⟩ := foldl_sweepOne now [] hnodup horder
  refine ⟨?_, httl, fun key => ?_⟩
  · rw [sweep, hseen, List.nil_append]
    exact (h.filter _).map _
  · refine Option.ext fun i => ?_
    rw [sweep, hleft]
    simp only [Option.filter_eq_some_iff, Bool.not_eq_true']
    refine and_congr_right fun hi => ⟨fun hlive => hlive ?_, fun hlive _ => hlive⟩
    exact h.mem_iff.mpr (AList.mem_lookup_iff.mp hi)

end Sweep

/-! ## 2. Runs -/

/-- A call of the cache, or a pass of its cleanup loop. -/
inductive Op (K V : Type)
  | set (key : K) (value : V) (ttl : Duration)
  | get (key : K)
  | delete (key : K)
  | clear
  | cleanup

/-- A call and the time that it reads. -/
structure Call (K V : Type) where
  time : Time
  op : Op K V

/-- A call that has been made: what `Get` returned, and what the callback was called with. -/
structure Served (K V : Type) extends Call K V where
  got : Option V
  evicted : List (K × V)

/-- One call. -/
inductive Step (c : Cache K V) : Served K V → Cache K V → Prop
  | set (now : Time) (key : K) (value : V) (ttl : Duration) :
      Step c ⟨⟨now, .set key value ttl⟩, none, []⟩ (c.set now key value ttl)
  | get (now : Time) (key : K) : Step c ⟨⟨now, .get key⟩, c.get now key, []⟩ c
  | delete (now : Time) (key : K) :
      Step c ⟨⟨now, .delete key⟩, none, (c.delete key).2⟩ (c.delete key).1
  | clear (now : Time) : Step c ⟨⟨now, .clear⟩, none, []⟩ c.clear
  | cleanup (now : Time) {order : List (Sigma fun _ : K => Item V)}
      (h : order.Perm c.items.entries) :
      Step c ⟨⟨now, .cleanup⟩, none, (c.sweep now order).2⟩ (c.sweep now order).1

/-- What has been called on a cache since `New`, the newest call first.  The clock does not go
back. -/
inductive Run (defaultTTL : Duration) : List (Served K V) → Cache K V → Prop
  | new : Run defaultTTL [] (.new K V defaultTTL)
  | step {history : List (Served K V)} {c c' : Cache K V} {e : Served K V}
      (hrun : Run defaultTTL history c) (htime : ∀ e' ∈ history, e'.time ≤ e.time)
      (hstep : Step c e c') : Run defaultTTL (e :: history) c'

/-! ## 3. The timed map

All of this is read off the calls alone, without a cache: it says what a map with deadlines
answers and removes. -/

/-- What a `Set` has stored, and when. -/
structure Entry (V : Type) where
  time : Time
  value : V
  ttl : Duration

/-- The deadline of the entry is not over: a ttl of -1 has none, 0 stands for the default. -/
def Entry.Live (defaultTTL : Duration) (e : Entry V) (t : Time) : Prop :=
  e.ttl = -1 ∨ t ≤ e.time + if e.ttl = 0 then defaultTTL else e.ttl

instance (defaultTTL : Duration) (e : Entry V) (t : Time) : Decidable (e.Live defaultTTL t) :=
  inferInstanceAs (Decidable (_ ∨ _))

/-- **The last `Set` of the key** that no `Delete` of the key and no `Clear` follows. -/
def lastSet (key : K) : List (Call K V) → Option (Entry V)
  | [] => none
  | call :: past =>
    match call.op with
    | .set k value ttl => if k = key then some ⟨call.time, value, ttl⟩ else lastSet key past
    | .delete k => if k = key then none else lastSet key past
    | .clear => none
    | .get _ | .cleanup => lastSet key past

/-- What the map still holds of it: a cleanup pass removes what is over. -/
def held (defaultTTL : Duration) (key : K) : List (Call K V) → Option (Entry V)
  | [] => none
  | call :: past =>
    match call.op with
    | .set k value ttl =>
      if k = key then some ⟨call.time, value, ttl⟩ else held defaultTTL key past
    | .delete k => if k = key then none else held defaultTTL key past
    | .clear => none
    | .get _ => held defaultTTL key past
    | .cleanup => (held defaultTTL key past).filter fun e => e.Live defaultTTL call.time

/-- The entry of the key that a `Delete` or a cleanup pass removes, if it removes one. -/
def removed (defaultTTL : Duration) (key : K) (call : Call K V) (past : List (Call K V)) :
    Option (Entry V) :=
  match call.op with
  | .delete k => if k = key then held defaultTTL key past else none
  | .cleanup => (held defaultTTL key past).filter fun e => ¬ e.Live defaultTTL call.time
  | _ => none

/-- The entries of the key that were so removed. -/
def removals (defaultTTL : Duration) (key : K) : List (Call K V) → List (Entry V)
  | [] => []
  | call :: past => (removed defaultTTL key call past).toList ++ removals defaultTTL key past

/-- The answers of the `Get`s of a timed map. -/
def timedAnswers (defaultTTL : Duration) : List (Call K V) → List (Option V)
  | [] => []
  | call :: past =>
    match call.op with
    | .get key =>
      (((lastSet key past).filter fun e => e.Live defaultTTL call.time).map (·.value)) ::
        timedAnswers defaultTTL past
    | _ => timedAnswers defaultTTL past

/-- The calls of a history. -/
def calls (history : List (Served K V)) : List (Call K V) := history.map Served.toCall

/-- The answers of its `Get`s. -/
def answers (history : List (Served K V)) : List (Option V) :=
  history.filterMap fun e =>
    match e.op with
    | .get _ => some e.got
    | _ => none

/-- What the callback was called with for the key. -/
def callbacks (key : K) (history : List (Served K V)) : List V :=
  ((history.flatMap (·.evicted)).filter fun p => p.1 = key).map Prod.snd

/-- A pass of the cleanup loop. -/
def Call.isCleanup (call : Call K V) : Bool :=
  match call.op with
  | .cleanup => true
  | _ => false

/-- The calls without the passes of the cleanup loop. -/
def withoutCleanups (past : List (Call K V)) : List (Call K V) :=
  past.filter fun call => !call.isCleanup

/-! ## 4. What the map holds

`Holds` relates the cache to the calls that led to it, key by key. It is kept by every call, and
from it follow the answer of a `Get` and what the callback is called with. -/

section Holds

variable {defaultTTL : Duration} {c c' : Cache K V} {history : List (Served K V)} {e : Served K V}
  {past : List (Call K V)} {key : K} {t : Time}

/-- The item that is stored for an entry. -/
def Entry.item (defaultTTL : Duration) (s : Entry V) : Item V :=
  (new Unit V defaultTTL).makeItem s.time s.value s.ttl

omit [DecidableEq K] in
theorem makeItem_eq (h : c.defaultTTL = defaultTTL) (now : Time) (value : V) (ttl : Duration) :
    c.makeItem now value ttl = Entry.item defaultTTL ⟨now, value, ttl⟩ := by
  simp [Entry.item, makeItem, new, h]

@[simp] theorem Entry.item_value (defaultTTL : Duration) (s : Entry V) :
    (s.item defaultTTL).value = s.value :=
  makeItem_value _ _ _ _

/-- The item of an entry is over when the entry is. -/
@[simp] theorem Entry.item_expired (defaultTTL : Duration) (s : Entry V) (t : Time) :
    (s.item defaultTTL).expired t = !decide (s.Live defaultTTL t) := by
  unfold Entry.item makeItem new Entry.Live Item.expired
  by_cases hperm : s.ttl = -1
  · simp [hperm]
  · by_cases hzero : s.ttl = 0
    · simp [hzero, ← decide_not]
    · simp [hperm, hzero, ← decide_not]

theorem Entry.Live.mono {s : Entry V} {t' : Time} (h : s.Live defaultTTL t) (hle : t' ≤ t) :
    s.Live defaultTTL t' :=
  h.imp id hle.trans

/-- The cache holds what the history says. -/
structure Holds (defaultTTL : Duration) (past : List (Call K V)) (c : Cache K V) : Prop where
  ttl : c.defaultTTL = defaultTTL
  items : ∀ key, c.items.lookup key = (held defaultTTL key past).map (·.item defaultTTL)

theorem holds_new (defaultTTL : Duration) : Holds defaultTTL [] (new K V defaultTTL) :=
  ⟨rfl, fun _ => rfl⟩

theorem Holds.get (h : Holds defaultTTL past c) (key : K) (t : Time) :
    c.get t key =
      ((held defaultTTL key past).filter fun s => s.Live defaultTTL t).map (·.value) := by
  unfold Cache.get
  rw [h.items]
  cases held defaultTTL key past with
  | none => rfl
  | some s => by_cases hlive : s.Live defaultTTL t <;> simp [hlive]

/-- **The step lemma.** -/
theorem Holds.step (h : Holds defaultTTL past c) (hstep : Step c e c') :
    Holds defaultTTL (e.toCall :: past) c' := by
  cases hstep with
  | set now key value ttl =>
    refine ⟨h.ttl, fun key' => ?_⟩
    by_cases hkey : key = key'
    · subst hkey
      simp [held, makeItem_eq h.ttl]
    · simp [held, hkey, lookup_set_ne _ _ _ _ (Ne.symm hkey), h.items]
  | get now key => exact ⟨h.ttl, h.items⟩
  | delete now key =>
    refine ⟨by simp [h.ttl], fun key' => ?_⟩
    by_cases hkey : key = key'
    · subst hkey
      simp [held, lookup_delete_self]
    · simp [held, hkey, lookup_delete_ne _ (Ne.symm hkey), h.items]
  | clear now => exact ⟨h.ttl, fun key' => rfl⟩
  | cleanup now horder =>
    obtain ⟨-, httl, hleft⟩ := sweep_spec now horder
    refine ⟨httl.trans h.ttl, fun key => ?_⟩
    rw [hleft, h.items]
    cases hheld : held defaultTTL key past with
    | none => simp [held, hheld]
    | some s =>
      by_cases hlive : s.Live defaultTTL now <;> simp [held, hheld, Option.filter_some, hlive]

/-- In a list without repeated keys a key has one pair. -/
theorem filter_key_eq {l : List (K × V)} (h : (l.map Prod.fst).Nodup) {v : V}
    (hmem : (key, v) ∈ l) : l.filter (fun p => p.1 = key) = [(key, v)] := by
  induction l with
  | nil => cases hmem
  | cons p l ih =>
    obtain ⟨hp, hl⟩ := List.nodup_cons.mp h
    rcases List.mem_cons.mp hmem with rfl | hmem
    · have hrest : l.filter (fun p => p.1 = key) = [] := by
        refine List.filter_eq_nil_iff.mpr fun q hq heq => hp ?_
        exact List.mem_map.mpr ⟨q, hq, of_decide_eq_true heq⟩
      simp [hrest]
    · have hne : p.1 ≠ key := fun heq => hp (heq ▸ List.mem_map_of_mem (f := Prod.fst) hmem)
      simp [hne, ih hl hmem]

/-- **What the callback is called with** is the entry that is removed. -/
theorem Holds.evicted (h : Holds defaultTTL past c) (hstep : Step c e c') (key : K) :
    (e.evicted.filter fun p => p.1 = key).map Prod.snd =
      ((removed defaultTTL key e.toCall past).map (·.value)).toList := by
  cases hstep with
  | set | get | clear => rfl
  | delete now k =>
    have hitem := h.items k
    cases hheld : held defaultTTL k past with
    | none =>
      have hnone : c.delete k = (c, []) := by simp [Cache.delete, hitem, hheld]
      by_cases hk : k = key
      · subst hk
        simp [removed, hnone, hheld]
      · simp [removed, hnone, hk]
    | some s =>
      rw [hheld, Option.map_some] at hitem
      by_cases hk : k = key
      · subst hk
        simp [removed, delete_of_lookup hitem, hheld]
      · simp [removed, delete_of_lookup hitem, hk]
  | @cleanup now order horder =>
    obtain ⟨hperm, -, -⟩ := sweep_spec now horder
    have hnodup : ((c.sweep now order).2.map Prod.fst).Nodup :=
      (hperm.map Prod.fst).nodup_iff.mpr (nodup_deleteExpired c now)
    -- what is over is in the list, and nothing else
    have hmem : ∀ v, (key, v) ∈ (c.sweep now order).2 ↔
        ∃ i, c.items.lookup key = some i ∧ i.expired now = true ∧ i.value = v :=
      fun v => hperm.mem_iff.trans mem_deleteExpired
    have hnone : (∀ v, (key, v) ∉ (c.sweep now order).2) →
        (c.sweep now order).2.filter (fun p => p.1 = key) = [] := by
      intro hno
      refine List.filter_eq_nil_iff.mpr fun p hp heq => hno p.2 ?_
      rwa [← of_decide_eq_true heq]
    simp only [h.items] at hmem
    cases hheld : held defaultTTL key past with
    | none =>
      rw [hnone fun v hv => by simp [hmem, hheld] at hv]
      simp [removed, hheld]
    | some s =>
      by_cases hlive : s.Live defaultTTL now
      · rw [hnone fun v hv => by simp [hmem, hheld, hlive] at hv]
        simp [removed, hheld, Option.filter_some, hlive]
      · rw [filter_key_eq hnodup ((hmem s.value).mpr (by simp [hheld, hlive]))]
        simp [removed, hheld, Option.filter_some, hlive]

end Holds

/-! ## 5. What is seen -/

section Seen

variable {defaultTTL : Duration} {c c' : Cache K V} {history : List (Served K V)} {e : Served K V}
  {past : List (Call K V)} {key : K} {t : Time}

/-- An entry that is held is the last one set. -/
theorem lastSet_of_held {s : Entry V} (h : held defaultTTL key past = some s) :
    lastSet key past = some s := by
  induction past with
  | nil => cases h
  | cons call past ih =>
    obtain ⟨time, op⟩ := call
    cases op with
    | set k value ttl =>
      by_cases hk : k = key
      · simpa [held, lastSet, hk] using h
      · simp only [held, lastSet, hk, if_false] at h ⊢
        exact ih h
    | get k => exact ih h
    | delete k =>
      by_cases hk : k = key
      · simp [held, hk] at h
      · simp only [held, lastSet, hk, if_false] at h ⊢
        exact ih h
    | clear => cases h
    | cleanup => exact ih (Option.filter_eq_some_iff.mp h).1

/-- What is removed has been set last. -/
theorem lastSet_of_removed {call : Call K V} {s : Entry V}
    (h : removed defaultTTL key call past = some s) : lastSet key past = some s := by
  obtain ⟨time, op⟩ := call
  cases op with
  | delete k =>
    by_cases hk : k = key
    · exact lastSet_of_held (by simpa [removed, hk] using h)
    · simp [removed, hk] at h
  | cleanup => exact lastSet_of_held (Option.filter_eq_some_iff.mp h).1
  | set | get | clear => cases h

/-- **What a cleanup pass has removed nobody sees any more.** -/
theorem held_filter_live (htime : ∀ call ∈ past, call.time ≤ t) :
    (held defaultTTL key past).filter (fun s => s.Live defaultTTL t) =
      (lastSet key past).filter fun s => s.Live defaultTTL t := by
  induction past with
  | nil => rfl
  | cons call past ih =>
    have hrest := ih fun call' hcall' => htime call' (by simp [hcall'])
    have hnow := htime call (by simp)
    obtain ⟨time, op⟩ := call
    cases op with
    | set k value ttl =>
      by_cases hk : k = key <;> simp [held, lastSet, hk, hrest]
    | get k => exact hrest
    | delete k => by_cases hk : k = key <;> simp [held, lastSet, hk, hrest]
    | clear => rfl
    | cleanup =>
      rw [lastSet, ← hrest, held]
      -- an entry that is live now was live then
      cases held defaultTTL key past with
      | none => rfl
      | some s =>
        by_cases hlive : s.Live defaultTTL t
        · simp [Option.filter_some, hlive, hlive.mono hnow]
        · by_cases hthen : s.Live defaultTTL time <;> simp [Option.filter_some, hlive, hthen]

/-- The answer of a `Get`. -/
theorem Holds.got (h : Holds defaultTTL past c) (hstep : Step c e c') (hop : e.op = .get key)
    (htime : ∀ call ∈ past, call.time ≤ e.time) :
    e.got = ((lastSet key past).filter fun s => s.Live defaultTTL e.time).map (·.value) := by
  cases hstep with
  | get now k =>
    cases hop
    rw [← held_filter_live htime]
    exact h.get key now
  | set | delete | clear | cleanup => cases hop

omit [DecidableEq K] in
theorem calls_time (htime : ∀ e' ∈ history, e'.time ≤ t) :
    ∀ call ∈ calls history, call.time ≤ t := by
  intro call hcall
  obtain ⟨e', he', rfl⟩ := List.mem_map.mp hcall
  exact htime e' he'

/-- **The run lemma.** -/
theorem Run.holds (h : Run defaultTTL history c) : Holds defaultTTL (calls history) c := by
  induction h with
  | new => exact holds_new defaultTTL
  | step _ _ hstep ih => exact ih.step hstep

/-- **The answers are those of the timed map.** -/
theorem Run.answers_eq (h : Run defaultTTL history c) :
    answers history = timedAnswers defaultTTL (calls history) := by
  induction h with
  | new => rfl
  | @step history c c' e hrun htime hstep ih =>
    have hgot := fun key hop => hrun.holds.got hstep (hop : e.op = .get key) (calls_time htime)
    obtain ⟨⟨time, op⟩, got, evicted⟩ := e
    cases op with
    | get key => exact congrArg₂ List.cons (hgot key rfl) ih
    | set | delete | clear | cleanup => exact ih

/-- **The callback is called for what is removed**, once for each entry. -/
theorem Run.callbacks_eq (h : Run defaultTTL history c) (key : K) :
    callbacks key history = (removals defaultTTL key (calls history)).map (·.value) := by
  induction h with
  | new => rfl
  | @step history c c' e hrun htime hstep ih =>
    have hfirst := hrun.holds.evicted hstep key
    simp only [callbacks, List.flatMap_cons, List.filter_append, List.map_append, calls,
      List.map_cons, removals, hfirst] at ih ⊢
    rw [ih]
    simp [Option.toList_map]

/-- The calls before one of a run are a run. -/
theorem Run.split {later : List (Served K V)} (h : Run defaultTTL (later ++ e :: history) c) :
    ∃ c₀ c₁, Run defaultTTL history c₀ ∧ (∀ e' ∈ history, e'.time ≤ e.time) ∧ Step c₀ e c₁ := by
  induction later generalizing c with
  | nil =>
    cases h with
    | step hrun htime hstep => exact ⟨_, _, hrun, htime, hstep⟩
  | cons e' later ih =>
    cases h with
    | step hrun _ _ => exact ih hrun

theorem exists_step (c : Cache K V) (call : Call K V) :
    ∃ e c', Step c e c' ∧ e.toCall = call := by
  obtain ⟨now, op⟩ := call
  cases op with
  | set key value ttl => exact ⟨_, _, .set now key value ttl, rfl⟩
  | get key => exact ⟨_, _, .get now key, rfl⟩
  | delete key => exact ⟨_, _, .delete now key, rfl⟩
  | clear => exact ⟨_, _, .clear now, rfl⟩
  | cleanup => exact ⟨_, _, .cleanup now (List.Perm.refl _), rfl⟩

/-- Any calls at times that do not go back can be made. -/
theorem exists_run (defaultTTL : Duration) (h : past.Pairwise fun a b => b.time ≤ a.time) :
    ∃ history c, Run defaultTTL history c ∧ calls history = past := by
  induction past with
  | nil => exact ⟨[], _, .new, rfl⟩
  | cons call past ih =>
    obtain ⟨htime, hpast⟩ := List.pairwise_cons.mp h
    obtain ⟨history, c, hrun, rfl⟩ := ih hpast
    obtain ⟨e, c', hstep, rfl⟩ := exists_step c call
    refine ⟨e :: history, c', .step hrun (fun e' he' => ?_) hstep, rfl⟩
    exact htime e'.toCall (List.mem_map_of_mem he')

theorem lastSet_withoutCleanups (key : K) (past : List (Call K V)) :
    lastSet key (withoutCleanups past) = lastSet key past := by
  induction past with
  | nil => rfl
  | cons call past ih =>
    obtain ⟨time, op⟩ := call
    cases op with
    | set k value ttl =>
      change (if k = key then _ else lastSet key (withoutCleanups past)) = _
      rw [ih]
      rfl
    | delete k =>
      change (if k = key then _ else lastSet key (withoutCleanups past)) = _
      rw [ih]
      rfl
    | clear => rfl
    | get | cleanup => exact ih

/-- **Cleanup passes are invisible.** -/
theorem timedAnswers_withoutCleanups (defaultTTL : Duration) (past : List (Call K V)) :
    timedAnswers defaultTTL (withoutCleanups past) = timedAnswers defaultTTL past := by
  induction past with
  | nil => rfl
  | cons call past ih =>
    obtain ⟨time, op⟩ := call
    cases op with
    | get key =>
      have hset := lastSet_withoutCleanups key past
      change Option.map _ (Option.filter _ (lastSet key (withoutCleanups past))) ::
        timedAnswers defaultTTL (withoutCleanups past) = _
      rw [ih, hset]
      rfl
    | set | delete | clear | cleanup => exact ih

end Seen

/-- **The cache is a timed map, and cleanup is invisible.**  Calls at times that do not go back can
be made, in any number and order, with passes of the cleanup loop anywhere between them; and
however they are made:

* a `Get` returns a value if and only if the last `Set` of the key that no `Delete` of the key and
  no `Clear` follows has stored it, for ever or for a time that is not over;
* a run with other cleanup passes, or with none, has the same answers;
* the callback has been called for the entries that a `Delete` or a cleanup pass has removed, once
  for each, with its value, which is the one last stored. -/
theorem cache_refines_timedMap (defaultTTL : Duration) {past : List (Call K V)}
    (htimes : past.Pairwise fun a b => b.time ≤ a.time) :
    (∃ history c, Run defaultTTL history c ∧ calls history = past) ∧
    ∀ history c, Run defaultTTL history c → calls history = past →
      (∀ later e before, history = later ++ e :: before → ∀ key, e.op = .get key → ∀ v,
        (e.got = some v ↔ ∃ s, lastSet key (calls before) = some s ∧ s.value = v ∧
          (s.ttl = -1 ∨ e.time ≤ s.time + if s.ttl = 0 then defaultTTL else s.ttl))) ∧
      (∀ history' c', Run defaultTTL history' c' →
        withoutCleanups (calls history') = withoutCleanups past →
          answers history' = answers history) ∧
      ∀ key, callbacks key history = (removals defaultTTL key past).map (·.value) ∧
        ∀ later call before s, past = later ++ call :: before →
          removed defaultTTL key call before = some s → lastSet key before = some s := by
  refine ⟨exists_run defaultTTL htimes, fun history c hrun hcalls => ⟨?_, ?_, fun key => ⟨?_, ?_⟩⟩⟩
  · rintro later e before rfl key hop v
    obtain ⟨c₀, c₁, hbefore, htime, hstep⟩ := hrun.split
    rw [hbefore.holds.got hstep hop (calls_time htime), Option.map_eq_some_iff]
    simp only [Option.filter_eq_some_iff, decide_eq_true_eq]
    constructor
    · rintro ⟨s, ⟨hset, hlive⟩, hv⟩
      exact ⟨s, hset, hv, hlive⟩
    · rintro ⟨s, hset, hv, hlive⟩
      exact ⟨s, ⟨hset, hlive⟩, hv⟩
  · intro history' c' hrun' hsame
    rw [hrun'.answers_eq, hrun.answers_eq, hcalls, ← timedAnswers_withoutCleanups, hsame,
      timedAnswers_withoutCleanups]
  · rw [hrun.callbacks_eq key, hcalls]
  · intro later call before s _ hremoved
    exact lastSet_of_removed hremoved

/-- An entry is overwritten when it is over, read, and removed by the second of two passes. -/
def overwritten : List (Call Nat Nat) :=
  [⟨30, .cleanup⟩, ⟨21, .get 1⟩, ⟨20, .cleanup⟩, ⟨11, .set 1 8 10⟩, ⟨0, .set 1 7 10⟩]

theorem cache_refines_timedMap_overwritten :
    (overwritten.Pairwise fun a b => b.time ≤ a.time) ∧
    ∃ history c, Run 60 history c ∧ calls history = overwritten ∧
      answers history = [some 8] ∧ callbacks 1 history = [8] := by
  have htimes : overwritten.Pairwise fun a b => b.time ≤ a.time := by decide
  obtain ⟨⟨history, c, hrun, hcalls⟩, hall⟩ := cache_refines_timedMap 60 htimes
  refine ⟨htimes, history, c, hrun, hcalls, ?_, ((hall history c hrun hcalls).2.2 1).1⟩
  rw [hrun.answers_eq, hcalls]
  rfl

end Cache

end Polykey
