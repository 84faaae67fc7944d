/-
# Revocation

A key is revoked when all its rows are.  Of the calls that write, all but one leave it so: an
update touches no status, a revocation sets it again, and a creation cannot go in under an id that
has rows.  The rotation query is the exception.  It takes the newest row whatever its status,
marks it rotated and inserts an active row, so it brings a revoked key back.

`revocation_permanent` is the result for the runs in which no rotation finds a revoked row, and
`rotation_unrevokes` says that any other rotation that succeeds ends the revocation.
-/
import Polykey.Service.Reads
import Polykey.Service.Scenario

namespace Polykey

open Lib PSQLAdapter

/-! ## 1. Revoked keys -/

/-- The key has rows, and all of them are revoked. -/
def Revoked (t : Table) (id : KeyID) : Prop :=
  (∃ r ∈ t.rows, r.id = id) ∧ ∀ r ∈ t.rows, r.id = id → r.status = .revoked

instance (t : Table) (id : KeyID) : Decidable (Revoked t id) :=
  inferInstanceAs (Decidable
    ((∃ r ∈ t.rows, r.id = id) ∧ ∀ r ∈ t.rows, r.id = id → r.status = .revoked))

variable {uuid : UUIDPkg} {t t' : Table} {id : KeyID} {now : Time}

/-- An update that leaves revoked rows of the id revoked. -/
theorem Revoked.mapRows (h : Revoked t id) {f : Row → Row} {hf : ∀ r, (f r).key = r.key}
    (hstatus : ∀ r, r.id = id → r.status = .revoked → (f r).status = .revoked) :
    Revoked (t.mapRows f hf) id := by
  obtain ⟨⟨r, hr, hid⟩, hall⟩ := h
  refine ⟨⟨f r, Table.mem_mapRows.mpr ⟨r, hr, rfl⟩, (Table.mapRows_id hf r).trans hid⟩, ?_⟩
  intro r' hr' hid'
  obtain ⟨r₀, hr₀, rfl⟩ := Table.mem_mapRows.mp hr'
  rw [Table.mapRows_id hf] at hid'
  exact hstatus r₀ hid' (hall r₀ hr₀ hid')

/-- An insert of rows of other ids. -/
theorem Revoked.append (h : Revoked t id) {new : List Row} (hrows : t'.rows = t.rows ++ new)
    (hnew : ∀ r ∈ new, r.id ≠ id) : Revoked t' id := by
  obtain ⟨⟨r, hr, hid⟩, hall⟩ := h
  refine ⟨⟨r, by rw [hrows]; simp [hr], hid⟩, fun r' hr' hid' => ?_⟩
  rcases List.mem_append.mp (hrows ▸ hr') with hold | hadd
  · exact hall r' hold hid'
  · exact absurd hid' (hnew r' hadd)

theorem Revoked.updateEach (h : Revoked t id) (updates : List (KeyID × Option KeyMetadata)) :
    Revoked (PSQLAdapter.updateEach now t updates) id := by
  induction updates generalizing t with
  | nil => exact h
  | cons u us ih =>
    refine ih (h.mapRows fun r _ hrev => ?_)
    split <;> exact hrev

theorem Revoked.revoke (h : Revoked t id) (ids : List KeyID) : Revoked (t.revoke ids now) id := by
  refine h.mapRows fun r _ hrev => ?_
  split
  · rfl
  · exact hrev

/-- A rotation of another key. -/
theorem Revoked.rotate (h : Revoked t id) {id' : KeyID} {dek : Bytes} {old : Row}
    {m : KeyMetadata} (hrot : Rotation now t id' dek old m t') (hne : id' ≠ id) :
    Revoked t' id := by
  have hmarked : Revoked (t.markRotated id' (timestamptz now)) id := by
    refine h.mapRows fun r hid hrev => ?_
    split
    · rename_i hnew
      exact absurd (hnew.1.symm.trans hid) hne
    · exact hrev
  refine hmarked.append hrot.rows fun r hr => ?_
  rw [List.mem_singleton.mp hr]
  have hid : old.id = id' := (Table.latest_eq_some.mp hrot.latest).2.1
  exact hid.trans_ne hne

/-- **The step lemma.**  A sound call keeps a key revoked, unless it is a rotation of that key. -/
theorem Revoked.change {op : RepoOp} (h : Revoked t id) (hchange : Change now op t t')
    (hsound : Sound uuid op t) (hchain : Chain uuid t)
    (hrot : ∀ id' dek, op = .rotateKey id' dek → ∀ r, t.latest id' = some r →
      r.status ≠ .revoked) : Revoked t' id := by
  cases hchange with
  | same => exact h
  | create hins =>
    refine h.append (Table.insert_eq_some hins) fun r hr hid => ?_
    obtain ⟨k, hk, rfl⟩ := List.mem_map.mp hr
    obtain ⟨⟨r₀, hr₀, hid₀⟩, -⟩ := h
    exact hchain.fresh_id hsound.created hins hk r₀ hr₀ (hid₀.trans hid.symm)
  | update _ => exact h.updateEach _
  | revoke => exact h.revoke _
  | @rotate id' dek _ _ old m hr =>
    refine h.rotate hr fun hid => hrot id' dek rfl old hr.latest ?_
    obtain ⟨hmem, hold, -⟩ := Table.latest_eq_some.mp hr.latest
    exact h.2 old hmem (hold.trans hid)

theorem revoked_revoke (hrow : ∃ r ∈ t.rows, r.id = id) {ids : List KeyID} (hid : id ∈ ids) :
    Revoked (t.revoke ids now) id := by
  obtain ⟨r, hr, rfl⟩ := hrow
  refine ⟨⟨_, Table.mem_mapRows.mpr ⟨r, hr, rfl⟩, by split <;> rfl⟩, fun r' hr' hid' => ?_⟩
  obtain ⟨r₀, hr₀, rfl⟩ := Table.mem_mapRows.mp hr'
  split
  · rfl
  · rename_i hnot
    rw [if_neg hnot] at hid'
    exact absurd (hid' ▸ hid) hnot

/-- Both revoking calls, when they succeed on a key that has rows, leave it revoked. -/
theorem revoked_of_exec {op : RepoOp} {a : op.Result} (hid : id ∈ op.revoked)
    (hrow : ∃ r ∈ t.rows, r.id = id) (h : exec uuid now op t = (.ok a, t')) : Revoked t' id := by
  cases op with
  | revokeKey id' =>
    simp only [exec, PSQLAdapter.revokeKey] at h
    split at h
    · cases (Prod.mk.inj h).1
    · exact (Prod.mk.inj h).2 ▸ revoked_revoke hrow hid
  | revokeBatchKeys ids => exact (Prod.mk.inj h).2 ▸ revoked_revoke hrow hid
  | _ => cases hid

/-- A rotation that succeeds leaves the key with an active row. -/
theorem rotation_unrevokes {dek : Bytes} {old : Row} {m : KeyMetadata}
    (hrot : Rotation now t id dek old m t') : ¬ Revoked t' id := by
  intro h
  have hid : old.id = id := (Table.latest_eq_some.mp hrot.latest).2.1
  have hmem : rotatedRow now old m dek ∈ t'.rows := by rw [hrot.rows]; simp
  cases h.2 _ hmem hid

/-! ## 2. Runs

The step lemma asks one thing of a call, not to rotate the revoked key. That it does not is a
condition on the state in which the rotation takes place, so it restricts the runs and not the
programs. -/

/-- The condition on a call: a rotation does not find a revoked row. -/
def RotatesUnrevoked (op : EffectOp) (w : World) : Prop :=
  ∀ id dek, op = .repo (.rotateKey id dek) → ∀ r, w.table.latest id = some r → r.status ≠ .revoked

theorem Revoked.worldStep {s : KeyService} {kms : KMS} (id : KeyID) {op : EffectOp} {w w' : World}
    {r : op.Res} (hstep : worldSem s.uuid kms op w r w') (hcond : RotatesUnrevoked op w)
    (hsound : SoundCall s.uuid op w) (hchain : Chain s.uuid w.table) (h : Revoked w.table id) :
    Revoked w'.table id := by
  cases hop : op.isRepo with
  | false =>
    rw [worldSem_table hstep hop]
    exact h
  | true =>
    cases op with
    | repo rop =>
      obtain ⟨now, -, t', hans, rfl⟩ := hstep
      exact h.change hans.change (hsound rop rfl) hchain
        fun id' dek heq => hcond id' dek (congrArg EffectOp.repo heq)
    | _ => cases hop

/-- A revoked key is not read. -/
theorem Revoked.getKey {s : KeyService} {kms : KMS} {w w' : World} (h : Revoked w.table id)
    {req : GetKeyRequest} (hid : keyIDFromString s.uuid req.keyId = .ok id)
    {resp : GetKeyResponse} :
    ¬ Act.Runs (worldSem s.uuid kms) (s.getKey req) w (.ok resp) w' := by
  intro hrun
  obtain ⟨id', r, hid', hrow, hrev, -⟩ := getKey_ok hrun
  obtain rfl : id = id' := Except.ok.inj (hid.symm.trans hid')
  obtain ⟨hmem, hrid⟩ := Table.mem_of_requested hrow
  exact hrev (h.2 r hmem hrid)

/-- **Revocation is permanent where no rotation finds a revoked row.**  From any reachable pool on,
whatever calls are under way and whatever calls follow, the rows of a revoked key stay revoked and
`GetKey` does not succeed on it, for any version.  A rotation of the key that does succeed ends
that. -/
theorem revocation_permanent {s : KeyService} {kms : KMS} {p q : ServicePool}
    (hp : Reachable s kms p) {id : KeyID} (hrev : Revoked p.state.table id)
    (hrun : PoolReachesWhen s kms RotatesUnrevoked p q) :
    Revoked q.state.table id ∧
      (∀ req : GetKeyRequest, keyIDFromString s.uuid req.keyId = .ok id → ∀ resp w',
        ¬ Act.Runs (worldSem s.uuid kms) (s.getKey req) q.state (.ok resp) w') ∧
      ∀ dek key w', worldSem s.uuid kms (.repo (.rotateKey id dek)) q.state (.ok key) w' →
        ¬ Revoked w'.table id := by
  have hq : Revoked q.state.table id :=
    hp.restrict (fun _ _ _ _ => Revoked.worldStep id) hrev hrun
  refine ⟨hq, fun req hid resp w' => hq.getKey hid, ?_⟩
  rintro dek key w' ⟨now, -, t', hans, rfl⟩
  rcases hans with hexec | ⟨⟨e, he⟩, -⟩
  · obtain ⟨old, m, hrot, -⟩ := rotateKey_eq_ok.mp hexec
    exact rotation_unrevokes hrot
  · cases he

/-- A key that has been created and revoked. -/
def revokedPool : ServicePool :=
  samplePool [.start sampleCreate, .finish 0, .start sampleRevoke, .finish 1]

/-- The test for `RotatesUnrevoked`. -/
def rotatesUnrevoked : EffectOp → World → Bool
  | .repo (.rotateKey id _), w => (w.table.latest id).all fun r => r.status ≠ .revoked
  | _, _ => true

theorem rotatesUnrevoked_iff {op : EffectOp} {w : World} (h : rotatesUnrevoked op w = true) :
    RotatesUnrevoked op w := by
  rintro id dek rfl r hr
  simpa [rotatesUnrevoked, hr] using h

/-- The revoked key after one more update of its metadata. -/
theorem revocation_permanent_update :
    Revoked revokedPool.state.table sampleID ∧
    Revoked (after (guarded rotatesUnrevoked) [.start sampleUpdate, .finish 2]
      revokedPool).state.table sampleID :=
  have hrev : Revoked revokedPool.state.table sampleID := by decide +kernel
  ⟨hrev, (revocation_permanent (samplePool_reachable _) hrev
    (after_reaches (guarded_sound fun _ _ => rotatesUnrevoked_iff) _ _)).1⟩

/-- The revoked key is rotated, and `GetKey` succeeds on it again. -/
theorem revoked_key_read_again :
    ∃ p q resp w', Reachable sampleService sampleKMS p ∧ Revoked p.state.table sampleID ∧
      PoolReaches sampleService sampleKMS p q ∧
      keyIDFromString googleUUID sampleGet.keyId = .ok sampleID ∧
      Act.Runs (worldSem googleUUID sampleKMS) (sampleService.getKey sampleGet) q.state
        (.ok resp) w' := by
  let q := after sampleStep [.start sampleRotate, .finish 2] revokedPool
  obtain ⟨resp, w', hrun, -⟩ := exists_run (sampleService.getKey sampleGet) q.state (fun _ => true)
    (by decide +kernel)
  exact ⟨revokedPool, q, resp, w', samplePool_reachable _, by decide +kernel,
    after_reaches sampleStep_sound _ _, keyIDFromString_string _ _, hrun⟩

end Polykey
