/-
# Rotation under concurrency

What the version chains of `Persistence/VersionChain` mean for the service as a whole, over every
interleaving of its calls.

* `versionChain_invariant`: in every reachable table the versions of an id are `1, …, n`, stored
  versions do not change, and a rotation adds version `n + 1` or nothing.
* A metadata update reads the newest row in one call and writes to the newest row in another.  A
  rotation in between leaves the old version number in the metadata of the new row, and from then
  on the rotation query computes a version that is already there.  `rotation_not_wedged` is the
  result for the runs in which every write carries the version of the row it goes to.
-/
import Polykey.Service.Scenario

namespace Polykey

open Lib PSQLAdapter

/-! ## 1. Chains in every reachable table -/

/-- **The version-chain invariant**, in every reachable pool and for every step from it. -/
theorem versionChain_invariant {s : KeyService} {kms : KMS} {p : ServicePool}
    (hp : Reachable s kms p) :
    (∀ id n, p.state.table.latest id = some n →
      (∀ v, (∃ r ∈ p.state.table.rows, r.id = id ∧ r.version = v) ↔ 1 ≤ v ∧ v ≤ n.version) ∧
      ∀ r ∈ p.state.table.rows, r.id = id →
        (∃ m, r.metadata = some m ∧ 1 ≤ m.version ∧ m.version ≤ r.version) ∧
        (r.status = .active → r = n)) ∧
    (∀ q, PoolReaches s kms p q → Extends p.state.table q.state.table) ∧
    ∀ id dek a w', worldSem s.uuid kms (.repo (.rotateKey id dek)) p.state a w' →
      (∀ key, a = .ok key → ∃ n row now, p.state.table.latest id = some n ∧
        w'.table.rows = (p.state.table.markRotated id now).rows ++ [row] ∧
        row.id = id ∧ row.version = n.version + 1 ∧ row.encryptedDEK = dek ∧ key = row.scan) ∧
      ∀ e, a = .error e → w'.table = p.state.table := by
  have hchain := hp.chain
  refine ⟨fun id n hn => ⟨hchain.versions hn, fun r hr hid => ⟨?_, fun hact => ?_⟩⟩,
    fun q hq => hp.extends hq, ?_⟩
  · obtain ⟨m, hm, hpos, hle, -⟩ := hchain.metadata r hr
    exact ⟨m, hm, hpos, hle⟩
  · obtain ⟨hmem, hnid, hmax⟩ := Table.latest_eq_some.mp hn
    have hle := hchain.active r hr hact n hmem (hnid.trans hid.symm)
    exact p.state.table.row_unique hr hmem (hid.trans hnid.symm) (le_antisymm (hmax r hr hid) hle)
  · rintro id dek a w' ⟨now, -, t', hans, rfl⟩
    refine ⟨?_, ?_⟩
    · rintro key rfl
      rcases hans with hexec | ⟨⟨e, he⟩, -⟩
      · obtain ⟨old, m, hrot, rfl⟩ := rotateKey_eq_ok.mp hexec
        have hid : old.id = id := (Table.latest_eq_some.mp hrot.latest).2.1
        have hv : m.version + 1 = old.version + 1 := by rw [hchain.rotation_version hrot]
        exact ⟨old, _, _, hrot.latest, hrot.rows, hid, hv, rfl, rfl⟩
      · cases he
    · rintro e rfl
      rcases hans with hexec | ⟨-, ht⟩
      · exact rotateKey_error hexec
      · exact ht

/-- A key that has been rotated twice, while an update of its metadata is under way. -/
theorem versionChain_rotated :
    let t := (samplePool [.start sampleCreate, .finish 0, .start sampleUpdate, .step 1,
      .start sampleRotate, .finish 2, .start sampleRotate, .finish 3]).state.table
    ∃ n, t.latest sampleID = some n ∧ n.version = 3 ∧
      (∀ v, (∃ r ∈ t.rows, r.id = sampleID ∧ r.version = v) ↔ 1 ≤ v ∧ v ≤ n.version) ∧
      ∀ r ∈ t.rows, r.id = sampleID → r.status = .active → r = n := by
  intro t
  have hversion : (t.latest sampleID).map (·.version) = some 3 := by decide +kernel
  obtain ⟨n, hn, hthree⟩ := Option.map_eq_some_iff.mp hversion
  obtain ⟨hversions, hrows⟩ := (versionChain_invariant (samplePool_reachable _)).1 sampleID n hn
  exact ⟨n, hn, hthree, hversions, fun r hr hid => (hrows r hr hid).2⟩

/-! ## 2. When a rotation succeeds

In a chain table it depends on two numbers of the newest row, its version and the one in its
metadata. What keeps them equal is that a write carries the version of the row it goes to. -/

/-- In a chain table a rotation succeeds exactly when the newest row's metadata has the row's own
version and there is room for the next one. -/
theorem rotateKey_ok_iff {uuid : UUIDPkg} {t : Table} (hchain : Chain uuid t) {id : KeyID} {n : Row}
    (hn : t.latest id = some n) {dek : Bytes} (hdek : dek ≠ []) (now : Time) :
    (∃ key t', rotateKey uuid now t id dek = (.ok key, t')) ↔
      n.version < int4Max ∧ ∃ m, n.metadata = some m ∧ m.version = n.version := by
  constructor
  · rintro ⟨key, t', h⟩
    obtain ⟨old, m, hrot, -⟩ := rotateKey_eq_ok.mp h
    obtain rfl : n = old := Option.some.inj (hn.symm.trans hrot.latest)
    have hv := hchain.rotation_version hrot
    exact ⟨hv ▸ hrot.version_lt, m, hrot.metadata, hv⟩
  · rintro ⟨hlt, m, hm, hv⟩
    obtain ⟨hmem, hid, hmax⟩ := Table.latest_eq_some.mp hn
    have hpos := hchain.pos n hmem
    have hfree : t.atVersion id (m.version + 1) = none := by
      refine Table.atVersion_eq_none.mpr fun r hr hrid hrv => ?_
      have hle := hmax r hr hrid
      omega
    obtain ⟨t', ht'⟩ := (insert_rotatedRow now dek hn).mpr hfree
    exact ⟨_, t', rotateKey_eq_ok.mpr ⟨n, m, ⟨hdek, hn, hm, by omega, by omega, hfree,
      Table.insert_eq_some ht'⟩, rfl⟩⟩

/-- The newest row of every id has metadata of its own version. -/
def Current (t : Table) : Prop :=
  ∀ id n, t.latest id = some n → ∀ m, n.metadata = some m → m.version = n.version

/-- The condition on a call: what it writes has the version of the newest row. -/
def WritesCurrent (op : EffectOp) (w : World) : Prop :=
  ∀ rop, op = .repo rop → ∀ u ∈ rop.written, ∀ m, u.2 = some m → ∀ n,
    w.table.latest u.1 = some n → m.version = n.version

variable {t t' : Table} {now : Time}

/-- An update whose new metadata, if any, has the row's version. -/
theorem Current.mapRows (h : Current t) {f : Row → Row} {hf : ∀ r, (f r).key = r.key}
    (hmeta : ∀ id n, t.latest id = some n → ∀ m, (f n).metadata = some m →
      n.metadata = some m ∨ m.version = n.version) : Current (t.mapRows f hf) := by
  intro id n hn m hm
  rw [Table.latest_mapRows] at hn
  obtain ⟨n₀, hn₀, rfl⟩ := Option.map_eq_some_iff.mp hn
  rw [Table.mapRows_version hf]
  rcases hmeta id n₀ hn₀ m hm with hold | hnew
  · exact h id n₀ hn₀ m hold
  · exact hnew

theorem Current.updateEach (h : Current t) {updates : List (KeyID × Option KeyMetadata)}
    (hcur : ∀ u ∈ updates, ∀ m, u.2 = some m → ∀ n, t.latest u.1 = some n →
      m.version = n.version) : Current (PSQLAdapter.updateEach now t updates) := by
  induction updates generalizing t with
  | nil => exact h
  | cons u us ih =>
    refine ih (h.mapRows fun id n hn m hm => ?_) fun u' hu' m hm n hn => ?_
    · split at hm
      · rename_i hnew
        refine .inr (hcur u (by simp) m hm n ?_)
        rw [← hnew.1, (Table.latest_eq_some.mp hn).2.1]
        exact hn
      · exact .inl hm
    · -- the first update changes no version
      simp only [Table.updateMetadata, Table.latest_mapRows] at hn
      obtain ⟨n₀, hn₀, rfl⟩ := Option.map_eq_some_iff.mp hn
      rw [hcur u' (by simp [hu']) m hm n₀ hn₀]
      split <;> rfl

/-- An insert of rows that have metadata of their own version. -/
theorem Current.append (h : Current t) {new : List Row} (hrows : t'.rows = t.rows ++ new)
    (hnew : ∀ r ∈ new, ∀ m, r.metadata = some m → m.version = r.version) : Current t' := by
  intro id n hn m hm
  obtain ⟨hmem, hid, hmax⟩ := Table.latest_eq_some.mp hn
  rcases List.mem_append.mp (hrows ▸ hmem) with hold | hadd
  · refine h id n (Table.latest_eq_some.mpr ⟨hold, hid, fun r hr hrid => ?_⟩) m hm
    exact hmax r (by rw [hrows]; simp [hr]) hrid
  · exact hnew n hadd m hm

/-- **The step lemma.**  A sound call that writes current versions keeps the newest rows
current. -/
theorem Current.change {uuid : UUIDPkg} {op : RepoOp} (h : Current t) (hchange : Change now op t t')
    (hsound : Sound uuid op t)
    (hcur : ∀ u ∈ op.written, ∀ m, u.2 = some m → ∀ n, t.latest u.1 = some n →
      m.version = n.version) : Current t' := by
  cases hchange with
  | same => exact h
  | create hins =>
    refine h.append (Table.insert_eq_some hins) fun r hr m hm => ?_
    obtain ⟨k, hk, rfl⟩ := List.mem_map.mp hr
    obtain ⟨hv, m', hm', hmv, -⟩ := hsound.created k hk
    obtain rfl : m = m' := Option.some.inj (hm.symm.trans hm')
    exact hmv.trans hv.symm
  | update _ => exact h.updateEach hcur
  | revoke =>
    refine h.mapRows fun id n _ m hm => .inl ?_
    split at hm <;> exact hm
  | @rotate id dek _ _ old m hrot =>
    have hmarked : Current (t.markRotated id (timestamptz now)) := by
      refine h.mapRows fun id n _ m hm => .inl ?_
      split at hm <;> exact hm
    refine hmarked.append hrot.rows fun r hr m hm => ?_
    rw [List.mem_singleton.mp hr] at hm ⊢
    cases hm
    rfl

theorem Current.worldStep {s : KeyService} {kms : KMS} {op : EffectOp} {w w' : World}
    {r : op.Res} (hstep : worldSem s.uuid kms op w r w') (hcond : WritesCurrent op w)
    (hsound : SoundCall s.uuid op w) (h : Current w.table) : Current w'.table := by
  cases hop : op.isRepo with
  | false =>
    rw [worldSem_table hstep hop]
    exact h
  | true =>
    cases op with
    | repo rop =>
      obtain ⟨now, -, t', hans, rfl⟩ := hstep
      exact h.change hans.change (hsound rop rfl) (hcond rop rfl)
    | _ => cases hop

/-- **Rotation is not wedged where every write is current.**  In every run whose metadata writes
carry the version of the row they go to, the newest row of every key has metadata of its own
version, and a rotation executed alone succeeds as long as the version column has room. -/
theorem rotation_not_wedged {s : KeyService} {kms : KMS} {start : Time} {p : ServicePool}
    (hrun : PoolReachesWhen s kms WritesCurrent (emptyPool start) p) {id : KeyID} {n : Row}
    (hn : p.state.table.latest id = some n) :
    (∃ m, n.metadata = some m ∧ m.version = n.version) ∧
      ∀ now dek, dek ≠ [] →
        ((∃ key t', rotateKey s.uuid now p.state.table id dek = (.ok key, t')) ↔
          n.version < int4Max) := by
  have hstart : Reachable s kms (emptyPool start) := ⟨start, .refl⟩
  have hempty : Current (emptyPool start).state.table := fun id n hn => by cases hn
  have hcur : Current p.state.table := hstart.restrict
    (fun _ _ _ _ hstep hcond hsound _ h => Current.worldStep hstep hcond hsound h) hempty hrun
  have hp : Reachable s kms p := ⟨start, Pool.Reaches.mono (fun _ _ _ _ h => h.2) hrun⟩
  obtain ⟨m, hm, -⟩ := hp.chain.metadata n (Table.latest_eq_some.mp hn).1
  have hv := hcur id n hn m hm
  refine ⟨⟨m, hm, hv⟩, fun now dek hdek => ?_⟩
  rw [rotateKey_ok_iff hp.chain hn hdek]
  exact ⟨fun h => h.1, fun h => ⟨h, m, hm, hv⟩⟩

/-- The test for `WritesCurrent`. -/
def writesCurrent : EffectOp → World → Bool
  | .repo rop, w => rop.written.all fun u => u.2.all fun m => (w.table.latest u.1).all fun n =>
      m.version = n.version
  | _, _ => true

theorem writesCurrent_iff {op : EffectOp} {w : World} (h : writesCurrent op w = true) :
    WritesCurrent op w := by
  rintro rop rfl u hu m hm n hn
  have hall := List.all_eq_true.mp h u hu
  simpa [hm, hn] using hall

/-- A key that is created, updated and rotated, one call after the other. -/
def rotatedPool : ServicePool :=
  after (guarded writesCurrent) [.start sampleCreate, .finish 0, .start sampleUpdate, .finish 1,
    .start sampleRotate, .finish 2] (emptyPool 0)

/-- It can be rotated again. -/
theorem rotation_not_wedged_sequential :
    ∃ key t', rotateKey googleUUID 0 rotatedPool.state.table sampleID [1] = (.ok key, t') := by
  have hany : (rotatedPool.state.table.latest sampleID).any (fun n => n.version = 2) = true := by
    decide +kernel
  obtain ⟨n, hn, hv⟩ := (Option.any_eq_true _ _).mp hany
  have hrun : PoolReachesWhen sampleService sampleKMS WritesCurrent (emptyPool 0) rotatedPool :=
    after_reaches (guarded_sound fun _ _ => writesCurrent_iff) _ _
  refine ((rotation_not_wedged hrun hn).2 0 [1] (by decide)).mpr ?_
  rw [of_decide_eq_true hv]
  decide

/-- An update reads version 1, a rotation commits version 2, the update writes what it read: from
then on the key cannot be rotated. -/
theorem rotation_wedged :
    ∃ q e t', Reachable sampleService sampleKMS q ∧
      ((q.state.table.latest sampleID).map Row.version = some 2) ∧
      rotateKey googleUUID 0 q.state.table sampleID [1] = (.error e, t') := by
  let q := samplePool [.start sampleCreate, .finish 0, .start sampleUpdate, .step 1,
    .start sampleRotate, .finish 2, .finish 1]
  have hfail : (rotateKey googleUUID 0 q.state.table sampleID [1]).1.isOk = false := by
    decide +kernel
  cases hrot : rotateKey googleUUID 0 q.state.table sampleID [1] with
  | mk r t' =>
    cases r with
    | error e => exact ⟨q, e, t', samplePool_reachable _, by decide +kernel, hrot⟩
    | ok key =>
      rw [hrot] at hfail
      cases hfail

end Polykey
